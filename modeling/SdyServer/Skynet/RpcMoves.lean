import SdyServer.Skynet.RpcInv
import Mathlib.Data.List.Pairwise

/-!
# No call is lost, and none returns twice

A request is one thing that is in one place at a time: it waits to be taken, or a coroutine works on
it, or an answer to it is promised, or it has been answered. A call that has not returned is in one
of these places, or what it needs to return is under way, unless the coroutine that took it ended
without an answer.
-/

namespace SdyServer.Rpc

variable {α : Type}

/-- Two of the same kind are of different calls. -/
def Apart : Happened α → Happened α → Prop
  | .called call _ _ _, .called call' _ _ _ => call ≠ call'
  | .answered call _ _, .answered call' _ _ => call ≠ call'
  | .returned call _ _, .returned call' _ _ => call ≠ call'
  | _, _ => True

def Prototype.isRequest : Prototype → Bool
  | .lua => true
  | .unknown => true
  | _ => false

def Message.requests (call : CallId) (m : Message α) : Bool :=
  m.prototype.isRequest ∧ m.source = call.1 ∧ m.session = call.2

def Happened.answers (call : CallId) (source : Handle) : Happened α → Bool
  | .answered call' source' _ => call' = call ∧ source' = source
  | _ => false

/-- How many coroutines work on a request. -/
def Service.handled (s : Service α) (call : CallId) : Nat :=
  (List.range s.nextCo).countP (s.handles call)

/-- In how many places of a service a request is. -/
def Service.tokens (s : Service α) (call : CallId) : Nat :=
  s.queue.countP (Message.requests call) + s.handled call + s.unresponse.count call

/-- Those where it is answered counted too. -/
def tokens (n : Node α) (dest : Handle) (call : CallId) : Nat :=
  (n.services dest).tokens call + n.trace.countP (Happened.answers call dest)

/-- The service was there when it took the request, or is still. -/
def Present (n : Node α) (call : CallId) (dest : Handle) : Prop :=
  (n.services dest).alive = true ∨ .late call dest ∈ n.trace

/-- Where a call is that has not returned: its request waits to be taken, a coroutine works on it,
an answer is promised, an answer or an error is on the way, or the news that the service is down, or
the error is to be given to the coroutine; or the coroutine that took the request has forgotten
it. -/
inductive Placed (n : Node α) (call : CallId) (dest : Handle) : Prop where
  | waits (m : Message α) (hmem : m ∈ (n.services dest).queue) (hrequests : m.requests call = true)
  | handled (co : Co) (hhandles : (n.services dest).handles call co = true)
      (hstatus : (n.services dest).status co ≠ .stopped) (hpresent : Present n call dest)
  | promised (hmem : call ∈ (n.services dest).unresponse) (hpresent : Present n call dest)
  | answered (m : Message α) (hmem : m ∈ (n.services call.1).queue) (hsession : m.session = call.2)
      (hprototype : m.prototype = .response ∨ m.prototype = .error)
  | down (m : Message α) (hmem : m ∈ (n.services call.1).queue) (hsession : m.session = 0)
      (hsource : m.source = dest)
      (hprototype : m.prototype = .error)
  | failed (hmem : call.2 ∈ (n.services call.1).errorQueue)
  | forgot (hmem : .forgot call dest ∈ n.trace)

theorem Placed.mono {n n' : Node α} {call : CallId} {dest : Handle} (h : Placed n call dest)
    (hwaits : ∀ m ∈ (n.services dest).queue, m.requests call = true → m ∈ (n'.services dest).queue)
    (hhandles : ∀ co, (n.services dest).handles call co = true →
      (n.services dest).status co ≠ .stopped →
      (n'.services dest).handles call co = true ∧ (n'.services dest).status co ≠ .stopped)
    (hpromised : call ∈ (n.services dest).unresponse → call ∈ (n'.services dest).unresponse)
    (hpresent : Present n call dest → Present n' call dest)
    (hqueue : ∀ m ∈ (n.services call.1).queue, m ∈ (n'.services call.1).queue)
    (hfailed : call.2 ∈ (n.services call.1).errorQueue → call.2 ∈ (n'.services call.1).errorQueue)
    (htrace : .forgot call dest ∈ n.trace → .forgot call dest ∈ n'.trace) :
    Placed n' call dest := by
  cases h with
  | waits m hmem hrequests => exact .waits m (hwaits m hmem hrequests) hrequests
  | handled co hhandle hstatus hthere =>
      obtain ⟨hhandle, hstatus⟩ := hhandles co hhandle hstatus
      exact .handled co hhandle hstatus (hpresent hthere)
  | promised hmem hthere => exact .promised (hpromised hmem) (hpresent hthere)
  | answered m hmem hsession hprototype => exact .answered m (hqueue m hmem) hsession hprototype
  | down m hmem hsession hsource hprototype =>
      exact .down m (hqueue m hmem) hsession hsource hprototype
  | failed hmem => exact .failed (hfailed hmem)
  | forgot hmem => exact .forgot (htrace hmem)

/-- The whole process: `hand` is a request that is between two places, `loose` are the calls that
have lost theirs. -/
structure Node.Ok (n : Node α) (hand : Option (Handle × CallId)) (loose : CallId → Prop) :
    Prop where
  services : ∀ handle, (n.services handle).Ok n.trace handle
  once : n.trace.Pairwise Apart
  response : ∀ handle, ∀ m ∈ (n.services handle).queue, m.prototype = .response →
    m.session ≤ (n.services handle).sessionId ∧
      ((∃ value, m.value = some value ∧ .answered (handle, m.session) m.source value ∈ n.trace) ∨
        ∀ co dest, ¬Called n.trace (handle, m.session) co dest)
  timers : ∀ call ∈ n.timers, call.2 ≤ (n.services call.1).sessionId ∧
    ∀ co dest, ¬Called n.trace call co dest
  token : ∀ dest call, call.2 ≠ 0 →
    tokens n dest call + (if hand = some (dest, call) then 1 else 0) ≤ 1
  called : ∀ dest call, call.2 ≠ 0 →
    0 < tokens n dest call + (if hand = some (dest, call) then 1 else 0) →
    ∃ co, Called n.trace call co dest
  returned : ∀ call co result, .returned call co result ∈ n.trace →
    ∃ dest, Called n.trace call co dest ∧ ∀ value, result = some value →
      .answered call dest value ∈ n.trace
  down : ∀ handle, ∀ m ∈ (n.services handle).queue, m.prototype = .error → m.session = 0 →
    (n.services m.source).life = .exited
  dead : ∀ handle dest, (n.services handle).deadService dest = true →
    (n.services dest).life = .exited
  placed : ∀ handle session co dest, (n.services handle).status co = .calling session →
    Called n.trace (handle, session) co dest → (n.services handle).alive = true →
      Placed n (handle, session) dest ∨ loose (handle, session)

namespace Node

variable {n : Node α} {hand : Option (Handle × CallId)} {loose loose' : CallId → Prop}
    {handle dest : Handle}
  {call : CallId} {co : Co} {session : Session}

section Basic

@[simp]
theorem services_modify_self (n : Node α) (handle : Handle) (f : Service α → Service α) :
    (n.modify handle f).services handle = f (n.services handle) := Function.update_self ..

theorem services_modify_of_ne {handle' : Handle} (h : handle' ≠ handle) (n : Node α)
    (f : Service α → Service α) :
    (n.modify handle f).services handle' = n.services handle' := Function.update_of_ne h ..

/-- What a service keeps of itself, every service keeps. -/
theorem apply_modify {β : Type} (g : Service α → β) {f : Service α → Service α}
    (hg : g (f (n.services handle)) = g (n.services handle)) (other : Handle) :
    g ((n.modify handle f).services other) = g (n.services other) := by
  by_cases heq : other = handle
  · rw [heq, services_modify_self, hg]
  · rw [services_modify_of_ne heq]

@[simp]
theorem trace_modify (n : Node α) (handle : Handle) (f : Service α → Service α) :
    (n.modify handle f).trace = n.trace := rfl

@[simp]
theorem timers_modify (n : Node α) (handle : Handle) (f : Service α → Service α) :
    (n.modify handle f).timers = n.timers := rfl

@[simp]
theorem services_note (n : Node α) (happened : Happened α) :
    (n.note happened).services = n.services := rfl

@[simp]
theorem trace_note (n : Node α) (happened : Happened α) :
    (n.note happened).trace = n.trace ++ [happened] := rfl

theorem modify_modify (n : Node α) (handle : Handle) (f g : Service α → Service α) :
    (n.modify handle f).modify handle g = n.modify handle fun s => g (f s) := by
  simp [modify]

instance : Std.Symm (Apart (α := α)) where
  symm := by
    intro a b h
    cases a <;> cases b <;> first | exact trivial | exact Ne.symm h

theorem alive_congr {s s' : Service α} (h : s'.life = s.life) : s'.alive = s.alive := by
  rw [Service.alive, Service.alive, h]

theorem not_alive_of_exited {s : Service α} (h : s.life = .exited) : s.alive = false := by
  rw [Service.alive, h]
  rfl

/-- A call has one caller and one receiver. -/
theorem Ok.receiver (h : n.Ok hand loose) {co' : Co} {dest' : Handle}
    (hcall : Called n.trace call co dest)
    (hcall' : Called n.trace call co' dest') : co' = co ∧ dest' = dest := by
  obtain ⟨value, hmem⟩ := hcall
  obtain ⟨value', hmem'⟩ := hcall'
  by_cases heq : Happened.called call co' dest' value' = .called call co dest value
  · cases heq
    exact ⟨rfl, rfl⟩
  · exact absurd rfl (h.once.forall hmem' hmem heq)

end Basic

/-- What a service does that is about none of the requests that it has taken. -/
structure Keeps (s s' : Service α) : Prop where
  life : s'.life = s.life
  queue : s'.queue = s.queue
  session : s.sessionId ≤ s'.sessionId
  handled : ∀ call, s'.handled call = s.handled call
  handles : ∀ call co, s.handles call co = true → s.status co ≠ .stopped →
    s'.handles call co = true ∧ s'.status co ≠ .stopped
  unresponse : s'.unresponse = s.unresponse
  calling : ∀ co session, s'.status co = .calling session → s.status co = .calling session
  errors : ∀ co session, s'.status co = .calling session → session ∈ s.errorQueue →
    session ∈ s'.errorQueue

section Keep

variable {n' : Node α} {s' : Service α}

theorem tokens_congr (hqueue : (n'.services dest).queue = (n.services dest).queue)
    (hhandled : (n'.services dest).handled call = (n.services dest).handled call)
    (hunresponse : (n'.services dest).unresponse = (n.services dest).unresponse)
    (htrace : n'.trace.countP (Happened.answers call dest) =
      n.trace.countP (Happened.answers call dest)) :
    tokens n' dest call = tokens n dest call := by
  rw [tokens, tokens, Service.tokens, Service.tokens, hqueue, hhandled, hunresponse, htrace]

/-- Nothing is seen, or a call returns. -/
def Returns (n n' : Node α) (handle : Handle) : Prop :=
  n'.trace = n.trace ∨ ∃ co session result, n'.trace =
    n.trace ++ [.returned (handle, session) co result] ∧
    (n.services handle).status co = .calling session ∧
      ∀ value, result = some value → ∃ dest, .answered (handle, session) dest value ∈ n.trace

theorem Returns.subset (h : Returns n n' handle) : n.trace ⊆ n'.trace := by
  rcases h with h | ⟨co, session, result, h, -, -⟩
  · rw [h]
    exact List.Subset.refl _
  · rw [h]
    exact List.subset_append_left ..

theorem Returns.called (h : Returns n n' handle) :
    Called n'.trace call co dest ↔ Called n.trace call co dest := by
  rcases h with h | ⟨co', session, result, h, -, -⟩
  · rw [h]
  · rw [h, called_concat]
    simp

theorem Returns.late (h : Returns n n' handle) :
    .late call dest ∈ n'.trace ↔ .late call dest ∈ n.trace := by
  rcases h with h | ⟨co', session, result, h, -, -⟩
  · rw [h]
  · rw [h]
    simp

theorem Returns.answers (h : Returns n n' handle) :
    n'.trace.countP (Happened.answers call dest) = n.trace.countP (Happened.answers call dest) := by
  rcases h with h | ⟨co', session, result, h, -, -⟩
  · rw [h]
  · rw [h, List.countP_append]
    simp [Happened.answers]

/-- It is one that had not returned. -/
theorem Returns.once (h : n.Ok hand loose) (hreturns : Returns n n' handle) :
    n'.trace.Pairwise Apart := by
  rcases hreturns with htrace | ⟨co, session, result, htrace, hstatus, -⟩
  · rw [htrace]
    exact h.once
  · have hnot := ((h.services handle).calling co session hstatus).2
    rw [htrace, List.pairwise_append]
    refine ⟨h.once, List.pairwise_singleton .., fun a ha b hb => ?_⟩
    rw [List.mem_singleton.mp hb]
    cases a with
    | returned call co' result' =>
        rintro rfl
        exact hnot ⟨co', result', ha⟩
    | _ => trivial

theorem Returns.result (h : n.Ok hand loose) (hreturns : Returns n n' handle) {result : Option α}
    (hmem : .returned call co result ∈ n'.trace) :
    ∃ dest, Called n'.trace call co dest ∧ ∀ value, result = some value →
    .answered call dest value ∈ n'.trace := by
  have hold : ∀ {result}, .returned call co result ∈ n.trace →
      ∃ dest, Called n'.trace call co dest ∧
      ∀ value, result = some value → .answered call dest value ∈ n'.trace := by
    intro result hmem
    obtain ⟨dest, hcall, hanswered⟩ := h.returned call co result hmem
    exact ⟨dest, hreturns.called.mpr hcall,
      fun value hvalue => hreturns.subset (hanswered value hvalue)⟩
  rcases id hreturns with htrace | ⟨co', session, result', htrace, hstatus, hvalue⟩
  · exact hold (htrace ▸ hmem)
  · rw [htrace] at hmem
    rcases List.mem_append.mp hmem with hmem | hmem
    · exact hold hmem
    · cases List.mem_singleton.mp hmem
      obtain ⟨⟨dest, -, hcall⟩, -⟩ := (h.services handle).calling co session hstatus
      refine ⟨dest, hreturns.called.mpr hcall, fun value heq => hreturns.subset ?_⟩
      obtain ⟨dest', hanswered⟩ := hvalue value heq
      have hpos : 0 < tokens n dest' (handle, session) +
          (if hand = some (dest', (handle, session)) then 1 else 0) := by
        have hcount : 0 < n.trace.countP (Happened.answers (handle, session) dest') :=
          List.countP_pos_iff.mpr ⟨_, hanswered, by simp [Happened.answers]⟩
        rw [tokens]
        omega
      have hne : session ≠ 0 :=
        Nat.pos_iff_ne_zero.mp ((h.services handle).called session co dest hcall).1
      obtain ⟨co', hcall'⟩ := h.called dest' (handle, session) hne hpos
      rwa [← (h.receiver hcall hcall').2]

theorem Returns.other (h : Returns n n' handle) {other : Handle} (hne : other ≠ handle)
    {s : Service α}
    (hok : s.Ok n.trace other) : s.Ok n'.trace other := by
  refine hok.congr (fun session co dest => h.called) fun session co result => ?_
  rcases h with h | ⟨co', session', result', h, -, -⟩
  · rw [h]
  · rw [h]
    simp [hne]

/-- A service goes on, and the requests that it has taken stay where they are. -/
structure Turns (n n' : Node α) (handle : Handle) (s' : Service α) : Prop where
  services : n'.services = Function.update n.services handle s'
  returns : Returns n n' handle
  keeps : Keeps (n.services handle) s'

namespace Turns

theorem self (h : Turns n n' handle s') : n'.services handle = s' := by
  rw [h.services, Function.update_self]

theorem other (h : Turns n n' handle s') {other : Handle} (hne : other ≠ handle) :
    n'.services other = n.services other := by
  rw [h.services, Function.update_of_ne hne]

theorem life (h : Turns n n' handle s') (other : Handle) :
    (n'.services other).life = (n.services other).life := by
  by_cases heq : other = handle
  · rw [heq, h.self, h.keeps.life]
  · rw [h.other heq]

theorem alive (h : Turns n n' handle s') (other : Handle) :
    (n'.services other).alive = (n.services other).alive := alive_congr (h.life other)

theorem queue (h : Turns n n' handle s') (other : Handle) :
    (n'.services other).queue = (n.services other).queue := by
  by_cases heq : other = handle
  · rw [heq, h.self, h.keeps.queue]
  · rw [h.other heq]

theorem unresponse (h : Turns n n' handle s') (other : Handle) :
    (n'.services other).unresponse = (n.services other).unresponse := by
  by_cases heq : other = handle
  · rw [heq, h.self, h.keeps.unresponse]
  · rw [h.other heq]

theorem handled (h : Turns n n' handle s') (other : Handle) (call : CallId) :
    (n'.services other).handled call = (n.services other).handled call := by
  by_cases heq : other = handle
  · rw [heq, h.self, h.keeps.handled]
  · rw [h.other heq]

theorem handles (h : Turns n n' handle s') {other : Handle}
    (hhandles : (n.services other).handles call co = true)
    (hrun : (n.services other).status co ≠ .stopped) :
    (n'.services other).handles call co = true ∧ (n'.services other).status co ≠ .stopped := by
  by_cases heq : other = handle
  · rw [heq] at hhandles hrun ⊢
    rw [h.self]
    exact h.keeps.handles call co hhandles hrun
  · rw [h.other heq]
    exact ⟨hhandles, hrun⟩

theorem sessionId_le (h : Turns n n' handle s') (other : Handle) :
    (n.services other).sessionId ≤ (n'.services other).sessionId := by
  by_cases heq : other = handle
  · rw [heq, h.self]
    exact h.keeps.session
  · exact Nat.le_of_eq (congrArg Service.sessionId (h.other heq)).symm

theorem calling (h : Turns n n' handle s') {other : Handle}
    (hstatus : (n'.services other).status co = .calling session) :
    (n.services other).status co = .calling session := by
  by_cases heq : other = handle
  · rw [heq, h.self] at hstatus
    rw [heq]
    exact h.keeps.calling co session hstatus
  · rwa [h.other heq] at hstatus

theorem errors (h : Turns n n' handle s') {other : Handle}
    (hstatus : (n'.services other).status co = .calling session)
    (hmem : session ∈ (n.services other).errorQueue) :
    session ∈ (n'.services other).errorQueue := by
  by_cases heq : other = handle
  · rw [heq, h.self] at hstatus ⊢
    rw [heq] at hmem
    exact h.keeps.errors co session hstatus hmem
  · rwa [h.other heq]

theorem tokens_eq (h : Turns n n' handle s') (dest : Handle) (call : CallId) :
    tokens n' dest call = tokens n dest call :=
  tokens_congr (h.queue dest) (h.handled dest call) (h.unresponse dest) h.returns.answers

theorem placed (h : Turns n n' handle s') {other : Handle}
    (hstatus : (n'.services other).status co = .calling session)
    (hplaced : Placed n (other, session) dest) : Placed n' (other, session) dest := by
  refine hplaced.mono ?_ (fun co' hhandles hrun => h.handles hhandles hrun) ?_ ?_ ?_
    (fun hmem => h.errors hstatus hmem) fun hmem => h.returns.subset hmem
  · intro m hm _
    rwa [h.queue]
  · intro hmem
    rwa [h.unresponse]
  · rw [Present, Present, h.alive, h.returns.late]
    exact id
  · intro m hm
    rwa [h.queue]

end Turns

/-- The places of the calls are what they were, but for those that the service has found for the
loose ones. -/
theorem Ok.keep (h : n.Ok hand loose)
    (hservices : n'.services = Function.update n.services handle s')
    (hreturns : Returns n n' handle) (hkeeps : Keeps (n.services handle) s')
    (hok : s'.Ok n'.trace handle)
    (hdead : ∀ dest, s'.deadService dest = true →
      (n.services handle).deadService dest = true ∨ (n.services dest).life = .exited)
    (htimers : ∀ call ∈ n'.timers, call ∈ n.timers ∨
      call.1 = handle ∧ (n.services handle).sessionId < call.2 ∧ call.2 ≤ s'.sessionId)
    (hloose : ∀ call, loose call → loose' call ∨ call.1 = handle ∧
      ∀ co, s'.status co = .calling call.2 → call.2 ∈ s'.errorQueue) : n'.Ok hand loose' := by
  have hturns : Turns n n' handle s' := ⟨hservices, hreturns, hkeeps⟩
  constructor
  · intro other
    by_cases heq : other = handle
    · rw [heq, hturns.self]
      exact hok
    · rw [hturns.other heq]
      exact hreturns.other heq (h.services other)
  · exact hreturns.once h
  · intro other m hm hprototype
    rw [hturns.queue] at hm
    obtain ⟨hle, hrest⟩ := h.response other m hm hprototype
    refine ⟨Nat.le_trans hle (hturns.sessionId_le other), hrest.imp ?_ ?_⟩
    · rintro ⟨value, hvalue, hanswered⟩
      exact ⟨value, hvalue, hreturns.subset hanswered⟩
    · exact fun hnot co dest hcall => hnot co dest (hreturns.called.mp hcall)
  · intro call hcall
    rcases htimers call hcall with hcall | ⟨heq, hlow, hhigh⟩
    · obtain ⟨hle, hnot⟩ := h.timers call hcall
      exact ⟨Nat.le_trans hle (hturns.sessionId_le call.1),
        fun co dest hcall => hnot co dest (hreturns.called.mp hcall)⟩
    · obtain ⟨caller, session⟩ := call
      have heq : caller = handle := heq
      subst heq
      refine ⟨by rw [hturns.self]; exact hhigh, fun co dest hcalled => ?_⟩
      have hle := ((h.services caller).called session co dest (hreturns.called.mp hcalled)).2.1
      exact absurd hlow (Nat.not_lt.mpr hle)
  · intro dest call hne
    rw [hturns.tokens_eq]
    exact h.token dest call hne
  · intro dest call hne
    rw [hturns.tokens_eq]
    intro hpos
    obtain ⟨co, hcall⟩ := h.called dest call hne hpos
    exact ⟨co, hreturns.called.mpr hcall⟩
  · exact fun call co result hmem => hreturns.result h hmem
  · intro other m hm
    rw [hturns.queue] at hm
    rw [hturns.life]
    exact h.down other m hm
  · intro other dest hdeadService
    rw [hturns.life]
    by_cases heq : other = handle
    · rw [heq, hturns.self] at hdeadService
      exact (hdead dest hdeadService).elim (h.dead handle dest) id
    · rw [hturns.other heq] at hdeadService
      exact h.dead other dest hdeadService
  · intro other session co dest hstatus hcall hlives
    rw [hreturns.called] at hcall
    rw [hturns.alive] at hlives
    rcases h.placed other session co dest (hturns.calling hstatus) hcall hlives with
      hplaced | hlost
    · exact .inl (hturns.placed hstatus hplaced)
    · refine (hloose _ hlost).symm.imp_left ?_
      rintro ⟨heq, hfound⟩
      have heq : other = handle := heq
      subst heq
      rw [hturns.self] at hstatus
      exact .failed (by rw [hturns.self]; exact hfound co hstatus)

end Keep

/-- The message lets a call from its receiver go on. -/
def Tells (m : Message α) (call : CallId) (dest : Handle) : Prop :=
  (m.prototype = .response ∨ m.prototype = .error) ∧ m.session = call.2 ∨
    m.prototype = .error ∧ m.session = 0 ∧ m.source = dest

section Messages

variable {m : Message α}

theorem Ok.drop (h : n.Ok hand loose) : n.Ok none loose where
  services := h.services
  once := h.once
  response := h.response
  timers := h.timers
  token := by
    intro dest call hne
    have htoken := h.token dest call hne
    rw [if_neg (Option.some_ne_none _).symm]
    omega
  called := by
    intro dest call hne hpos
    rw [if_neg (Option.some_ne_none _).symm] at hpos
    exact h.called dest call hne (by omega)
  returned := h.returned
  down := h.down
  dead := h.dead
  placed := h.placed

theorem mem_queue_post {other : Handle} {x : Message α} :
    x ∈ ((n.post dest m).services other).queue ↔
      x ∈ (n.services other).queue ∨ other = dest ∧ x = m := by
  by_cases heq : other = dest
  · rw [heq, Node.post, services_modify_self]
    simp
  · rw [Node.post, services_modify_of_ne heq]
    simp [heq]

theorem tokens_post (dest' : Handle) (call : CallId) :
    tokens (n.post dest m) dest' call =
      tokens n dest' call + if dest' = dest ∧ m.requests call = true then 1 else 0 := by
  have hhandled : ((n.post dest m).services dest').handled call =
      (n.services dest').handled call := apply_modify (fun s => s.handled call) rfl dest'
  have hunresponse : ((n.post dest m).services dest').unresponse =
      (n.services dest').unresponse := apply_modify Service.unresponse rfl dest'
  have htrace : (n.post dest m).trace = n.trace := rfl
  rw [tokens, tokens, Service.tokens, Service.tokens, hhandled, hunresponse, htrace]
  by_cases heq : dest' = dest
  · rw [heq, Node.post, services_modify_self]
    simp only [List.countP_append, List.countP_singleton, true_and]
    omega
  · rw [Node.post, services_modify_of_ne heq, if_neg fun hself => heq hself.1]
    omega

theorem alive_post (other : Handle) :
    ((n.post dest m).services other).alive = (n.services other).alive :=
  apply_modify Service.alive rfl other

theorem status_post (other : Handle) :
    ((n.post dest m).services other).status = (n.services other).status :=
  apply_modify Service.status rfl other

theorem placed_post {dest' : Handle} (hplaced : Placed n call dest') :
    Placed (n.post dest m) call dest' := by
  refine hplaced.mono (fun x hx _ => mem_queue_post.mpr (.inl hx)) ?_ ?_ ?_
    (fun x hx => mem_queue_post.mpr (.inl hx)) ?_ id
  · intro co' hhandles hrun
    have hsame : ((n.post dest m).services dest').handles call co' =
        (n.services dest').handles call co' := apply_modify (fun s => s.handles call co') rfl dest'
    rw [hsame, status_post]
    exact ⟨hhandles, hrun⟩
  · intro hmem
    rwa [Node.post, apply_modify Service.unresponse rfl]
  · rw [Present, Present, alive_post]
    exact id
  · intro hmem
    rwa [Node.post, apply_modify Service.errorQueue rfl]

/-- A message is put into a queue. It may be the request in hand. -/
theorem Ok.post {hand' : Option (Handle × CallId)} (h : n.Ok hand loose)
    (htoken : ∀ dest' call, call.2 ≠ 0 →
      (if dest' = dest ∧ m.requests call = true then 1 else 0) +
      (if hand' = some (dest', call) then 1 else 0) ≤
        if hand = some (dest', call) then 1 else 0)
    (hresponse : m.prototype = .response → m.session ≤ (n.services dest).sessionId ∧
      ((∃ value, m.value = some value ∧ .answered (dest, m.session) m.source value ∈ n.trace) ∨
        ∀ co dest', ¬Called n.trace (dest, m.session) co dest'))
    (hdown : m.prototype = .error → m.session = 0 → (n.services m.source).life = .exited)
    (hloose : ∀ call co dest', loose call → Called n.trace call co dest' → loose' call ∨
      call.1 = dest ∧ Tells m call dest' ∨ dest' = dest ∧ m.requests call = true) :
        (n.post dest m).Ok hand' loose' := by
  have hids : ∀ other, ((n.post dest m).services other).sessionId =
      (n.services other).sessionId := apply_modify Service.sessionId rfl
  have hlife : ∀ other, ((n.post dest m).services other).life = (n.services other).life :=
    apply_modify Service.life rfl
  have hdeadService : ∀ other, ((n.post dest m).services other).deadService =
      (n.services other).deadService := apply_modify Service.deadService rfl
  constructor
  · intro other
    by_cases heq : other = dest
    · rw [heq, Node.post, services_modify_self]
      exact (h.services dest).of_eq (.inl rfl) rfl rfl rfl (Nat.le_refl _) rfl rfl (.refl _)
    · rw [Node.post, services_modify_of_ne heq]
      exact h.services other
  · exact h.once
  · intro other x hx hprototype
    rw [hids]
    rcases mem_queue_post.mp hx with hx | ⟨rfl, rfl⟩
    · exact h.response other x hx hprototype
    · exact hresponse hprototype
  · intro call hcall
    rw [hids]
    exact h.timers call hcall
  · intro dest' call hne
    have hold := h.token dest' call hne
    have hmoved := htoken dest' call hne
    rw [tokens_post dest' call]
    omega
  · intro dest' call hne hpos
    have hmoved := htoken dest' call hne
    rw [tokens_post dest' call] at hpos
    exact h.called dest' call hne (by omega)
  · exact h.returned
  · intro other x hx hprototype hzero
    rw [hlife]
    rcases mem_queue_post.mp hx with hx | ⟨rfl, rfl⟩
    · exact h.down other x hx hprototype hzero
    · exact hdown hprototype hzero
  · intro other dest' hdead
    rw [hlife]
    rw [hdeadService] at hdead
    exact h.dead other dest' hdead
  · intro other session co dest' hstatus hcall halive
    rw [alive_post] at halive
    rw [status_post] at hstatus
    rcases h.placed other session co dest' hstatus hcall halive with hplaced | hlost
    · exact .inl (placed_post hplaced)
    · rcases hloose _ co dest' hlost hcall with hlost | ⟨heq, htells⟩ | ⟨heq, hrequests⟩
      · exact .inr hlost
      · left
        have hmem : m ∈ ((n.post dest m).services other).queue :=
          mem_queue_post.mpr (.inr ⟨heq, rfl⟩)
        rcases htells with ⟨hprototype, hsession⟩ | ⟨hprototype, hzero, hsource⟩
        · exact .answered m hmem hsession hprototype
        · exact .down m hmem hzero hsource hprototype
      · exact .inl (.waits m (mem_queue_post.mpr (.inr ⟨heq, rfl⟩)) hrequests)

/-- Only the calls that wait, of a service that is there, need a place. -/
theorem Ok.tighten (h : n.Ok hand loose)
    (hloose : ∀ call co dest, loose call → Called n.trace call co dest →
    (n.services call.1).alive = true → (n.services call.1).status co = .calling call.2 →
    loose' call) :
    n.Ok hand loose' where
  services := h.services
  once := h.once
  response := h.response
  timers := h.timers
  token := h.token
  called := h.called
  returned := h.returned
  down := h.down
  dead := h.dead
  placed := by
    intro other session co dest hstatus hcall halive
    exact (h.placed other session co dest hstatus hcall halive).imp_right fun hlost =>
      hloose _ co dest hlost hcall halive hstatus

/-- A message that is no request with a session. -/
theorem Ok.push (h : n.Ok hand loose) (hrequests : ∀ call, call.2 ≠ 0 → m.requests call = false)
    (hresponse : m.prototype = .response → m.session ≤ (n.services dest).sessionId ∧
      ((∃ value, m.value = some value ∧ .answered (dest, m.session) m.source value ∈ n.trace) ∨
        ∀ co dest', ¬Called n.trace (dest, m.session) co dest'))
    (hdown : m.prototype = .error → m.session = 0 → (n.services m.source).life = .exited)
    (hloose : ∀ call co dest', loose call → Called n.trace call co dest' →
      loose' call ∨ call.1 = dest ∧ Tells m call dest') : (n.push dest m).Ok hand loose' := by
  unfold Node.push
  split_ifs with hlives
  · refine h.post ?_ hresponse hdown ?_
    · intro dest' call hne
      rw [hrequests call hne]
      simp
    · exact fun call co dest' hlost hcall => (hloose call co dest' hlost hcall).imp_right .inl
  · refine h.tighten
      fun call co dest' hlost hcall halive _ => (hloose call co dest' hlost hcall).resolve_right ?_
    exact fun htells => hlives (htells.1 ▸ halive)

/-- An error settles the call that it is about. -/
theorem Ok.pushError (h : n.Ok hand fun call' => loose call' ∨ call' = call) {source : Handle}
    (hne : call.2 ≠ 0) :
    (n.pushError source call).Ok none loose := by
  refine h.drop.push (fun _ _ => rfl) (fun hprototype => by cases hprototype)
    (fun _ hzero => absurd hzero hne) ?_
  rintro call' co dest' (hlost | rfl) -
  · exact .inl hlost
  · exact .inr ⟨rfl, .inl ⟨.inr rfl, rfl⟩⟩

theorem Ok.gone (h : n.Ok hand fun call' => loose call' ∨ call' = call)
    (hgone : (n.services call.1).alive = false) : n.Ok none loose := by
  refine h.drop.tighten ?_
  rintro call' co dest (hlost | rfl) hcall halive hstatus
  · exact hlost
  · rw [hgone] at halive
    cases halive

/-- What is seen that is neither a call nor a return. -/
theorem Ok.seen {hand' : Option (Handle × CallId)} {x : Happened α} (h : n.Ok hand loose)
    (hcalled : ∀ call co dest value, x ≠ .called call co dest value)
    (hreturned : ∀ call co result, x ≠ .returned call co result) (honce : ∀ a ∈ n.trace, Apart a x)
    (htoken : ∀ dest call, tokens (n.note x) dest call +
      (if hand' = some (dest, call) then 1 else 0) =
      tokens n dest call + (if hand = some (dest, call) then 1 else 0))
    (hloose : ∀ call co dest, loose call → Called n.trace call co dest → loose' call ∨
      x = .forgot call dest) :
    (n.note x).Ok hand' loose' := by
  have hcall : ∀ call co dest, Called (n.note x).trace call co dest ↔
      Called n.trace call co dest := by
    intro call co dest
    rw [trace_note, called_concat]
    simp [hcalled]
  have hreturn : ∀ call co result, .returned call co result ∈ (n.note x).trace ↔
      .returned call co result ∈ n.trace := by
    intro call co result
    rw [trace_note, List.mem_append, List.mem_singleton]
    simp [(hreturned call co result).symm]
  have hsub : n.trace ⊆ (n.note x).trace := List.subset_append_left ..
  constructor
  · exact fun other => (h.services other).congr (fun _ _ _ => hcall ..) fun _ _ _ => hreturn ..
  · rw [trace_note, List.pairwise_append]
    refine ⟨h.once, List.pairwise_singleton .., fun a ha b hb => ?_⟩
    rw [List.mem_singleton.mp hb]
    exact honce a ha
  · intro other m hm hprototype
    obtain ⟨hle, hrest⟩ := h.response other m hm hprototype
    refine ⟨hle, hrest.imp ?_ ?_⟩
    · rintro ⟨value, hvalue, hanswered⟩
      exact ⟨value, hvalue, hsub hanswered⟩
    · exact fun hnot co dest hmem => hnot co dest ((hcall ..).mp hmem)
  · intro call hmem
    obtain ⟨hle, hnot⟩ := h.timers call hmem
    exact ⟨hle, fun co dest hmem => hnot co dest ((hcall ..).mp hmem)⟩
  · intro dest call hne
    rw [htoken]
    exact h.token dest call hne
  · intro dest call hne hpos
    rw [htoken] at hpos
    obtain ⟨co, hmem⟩ := h.called dest call hne hpos
    exact ⟨co, (hcall ..).mpr hmem⟩
  · intro call co result hmem
    obtain ⟨dest, hmem', hanswered⟩ := h.returned call co result ((hreturn ..).mp hmem)
    exact ⟨dest, (hcall ..).mpr hmem', fun value hvalue => hsub (hanswered value hvalue)⟩
  · exact h.down
  · exact h.dead
  · intro other session co dest hstatus hmem halive
    have hmem := (hcall ..).mp hmem
    rcases h.placed other session co dest hstatus hmem halive with hplaced | hlost
    · exact .inl (hplaced.mono (fun _ h _ => h)
        (fun _ h h' => ⟨h, h'⟩) id (.imp_right fun h => hsub h) (fun _ h => h) id
        fun h => hsub h)
    · rcases hloose _ co dest hlost hmem with hlost | rfl
      · exact .inr hlost
      · exact .inl (.forgot (List.mem_append_right _ (List.mem_singleton_self _)))

theorem Ok.noteLate (h : n.Ok hand loose) : (n.note (.late call dest)).Ok hand loose := by
  refine h.seen (by simp) (by simp) (fun a _ => by cases a <;> trivial) (fun dest' call' => ?_)
    fun _ _ _ h _ => .inl h
  simp [tokens, Happened.answers]

theorem Ok.noteForgot (h : n.Ok hand fun call' => loose call' ∨ call' = call)
    (hcall : Called n.trace call co dest) :
    (n.note (.forgot call dest)).Ok none loose := by
  refine h.drop.seen (by simp) (by simp) (fun a _ => by cases a <;> trivial)
    (fun dest' call' => ?_) ?_
  · simp [tokens, Happened.answers]
  · rintro call' co' dest' (hlost | rfl) hcall'
    · exact .inl hlost
    · rw [(h.receiver hcall hcall').2]
      exact .inr rfl

/-- The request that is in hand becomes its answer. -/
theorem Ok.noteAnswered {value : α} (h : n.Ok (some (handle, call)) loose) (hne : call.2 ≠ 0) :
    (n.note (.answered call handle value)).Ok none loose := by
  have htoken := h.token handle call hne
  rw [if_pos rfl] at htoken
  obtain ⟨co, hcall⟩ := h.called handle call hne (by rw [if_pos rfl]; omega)
  refine h.seen (by simp) (by simp) ?_ (fun dest' call' => ?_) fun _ _ _ h _ => .inl h
  · intro a ha
    cases a with
    | answered call' source value' =>
        rintro rfl
        have hcount : 0 < n.trace.countP (Happened.answers call' source) :=
          List.countP_pos_iff.mpr ⟨_, ha, by simp [Happened.answers]⟩
        obtain ⟨co', hcall'⟩ := h.called source call' hne (by rw [tokens]; omega)
        have heq := (h.receiver hcall hcall').2
        rw [heq] at hcount
        rw [tokens] at htoken
        omega
    | _ => trivial
  · have hanswers : [Happened.answered call handle value].countP (Happened.answers call' dest') =
        if some (handle, call) = some (dest', call') then 1 else 0 := by
      by_cases heq : handle = dest' ∧ call = call'
      · obtain ⟨rfl, rfl⟩ := heq
        simp [Happened.answers]
      · rw [if_neg (by simpa using heq)]
        simpa [Happened.answers, and_comm] using heq
    rw [tokens, tokens, services_note, trace_note, List.countP_append, hanswers,
      if_neg (Option.some_ne_none _).symm]
    omega

theorem push_note (n : Node α) (dest : Handle) (m : Message α) (x : Happened α) :
    (n.push dest m).note x = (n.note x).push dest m := by
  unfold Node.push
  rw [services_note]
  split_ifs <;> rfl

/-- The request that is in hand is answered, or its caller is told, or is gone. -/
theorem Ok.answer {large : Bool} {value : α}
    (h : n.Ok (some (handle, call)) fun call' => loose call' ∨ call' = call)
    (hne : call.2 ≠ 0) : (n.answer handle call large value).Ok none loose := by
  unfold Node.answer
  split_ifs with hlarge hlives
  · exact h.pushError hne
  · obtain ⟨co, hcall⟩ := h.called handle call hne (by rw [if_pos rfl]; omega)
    have hle := ((h.services call.1).called call.2 co handle hcall).2.1
    rw [push_note]
    refine (h.noteAnswered hne).push (fun _ _ => rfl) (fun _ => ⟨hle, .inl ⟨value, rfl, ?_⟩⟩)
      (fun hprototype => by cases hprototype) ?_
    · exact List.mem_append_right _ (List.mem_singleton_self _)
    · rintro call' co' dest' (hlost | rfl) -
      · exact .inl hlost
      · exact .inr ⟨rfl, .inl ⟨.inl rfl, rfl⟩⟩
  · exact h.gone (Bool.eq_false_iff.mpr hlives)

end Messages

section Move

variable {hand' : Option (Handle × CallId)} {s' : Service α}

/-- A service moves requests between places, and those in hand: a call that loses its place is a
loose one. -/
structure Moves (n : Node α) (hand : Option (Handle × CallId)) (loose : CallId → Prop)
    (handle : Handle) (s' : Service α) (hand' : Option (Handle × CallId))
    (loose' : CallId → Prop) : Prop where
  ok : s'.Ok n.trace handle
  life : s'.life = (n.services handle).life
  session : s'.sessionId = (n.services handle).sessionId
  queue : s'.queue ⊆ (n.services handle).queue
  dead : s'.deadService = (n.services handle).deadService
  calling : ∀ co session, s'.status co = .calling session →
    (n.services handle).status co = .calling session
  errors : s'.errorQueue = (n.services handle).errorQueue
  token : ∀ call, call.2 ≠ 0 →
    s'.tokens call + (if hand' = some (handle, call) then 1 else 0) ≤
      (n.services handle).tokens call + if hand = some (handle, call) then 1 else 0
  inHand : ∀ dest call, dest ≠ handle → hand' ≠ some (dest, call)
  waits : ∀ call, ∀ m ∈ (n.services handle).queue, m.requests call = true →
    m ∈ s'.queue ∨ loose' call
  handles : ∀ call co, (n.services handle).handles call co = true →
    (n.services handle).status co ≠ .stopped →
    (s'.handles call co = true ∧ s'.status co ≠ .stopped) ∨ call ∈ s'.unresponse ∨ loose' call
  promised : ∀ call ∈ (n.services handle).unresponse, call ∈ s'.unresponse ∨ loose' call
  tells : ∀ m ∈ (n.services handle).queue, m ∈ s'.queue ∨
    ∀ call co dest, call.1 = handle → Called n.trace call co dest → Tells m call dest → loose' call
  loose : ∀ call co dest, loose call → Called n.trace call co dest → loose' call ∨
    dest = handle ∧ Present n call handle ∧ ∃ co', s'.handles call co' = true ∧
      s'.status co' ≠ .stopped

namespace Moves

variable {n' : Node α} {other : Handle}

theorem lives (h : Moves n hand loose handle s' hand' loose')
    (hservices : n'.services = Function.update n.services handle s') (other : Handle) :
    (n'.services other).life = (n.services other).life := by
  rw [hservices]
  by_cases heq : other = handle
  · rw [heq, Function.update_self, h.life]
  · rw [Function.update_of_ne heq]

theorem alive (h : Moves n hand loose handle s' hand' loose')
    (hservices : n'.services = Function.update n.services handle s') (other : Handle) :
    (n'.services other).alive = (n.services other).alive := alive_congr (h.lives hservices other)

theorem sessionId (h : Moves n hand loose handle s' hand' loose')
    (hservices : n'.services = Function.update n.services handle s') (other : Handle) :
    (n'.services other).sessionId = (n.services other).sessionId := by
  rw [hservices]
  by_cases heq : other = handle
  · rw [heq, Function.update_self, h.session]
  · rw [Function.update_of_ne heq]

theorem queues (h : Moves n hand loose handle s' hand' loose')
    (hservices : n'.services = Function.update n.services handle s') (other : Handle) :
    (n'.services other).queue ⊆ (n.services other).queue := by
  rw [hservices]
  by_cases heq : other = handle
  · rw [heq, Function.update_self]
    exact h.queue
  · rw [Function.update_of_ne heq]
    exact List.Subset.refl _

theorem status (h : Moves n hand loose handle s' hand' loose')
    (hservices : n'.services = Function.update n.services handle s')
    (hstatus : (n'.services other).status co = .calling session) :
    (n.services other).status co = .calling session := by
  rw [hservices] at hstatus
  by_cases heq : other = handle
  · rw [heq, Function.update_self] at hstatus
    rw [heq]
    exact h.calling co session hstatus
  · rwa [Function.update_of_ne heq] at hstatus

theorem tokens_le (h : Moves n hand loose handle s' hand' loose')
    (hservices : n'.services = Function.update n.services handle s') (htrace : n'.trace = n.trace)
    (dest : Handle) (hne : call.2 ≠ 0) :
    tokens n' dest call + (if hand' = some (dest, call) then 1 else 0) ≤
      tokens n dest call + if hand = some (dest, call) then 1 else 0 := by
  rw [Rpc.tokens, Rpc.tokens, htrace, hservices]
  by_cases heq : dest = handle
  · have hcall := h.token call hne
    rw [heq, Function.update_self]
    omega
  · rw [Function.update_of_ne heq, if_neg (h.inHand dest call heq)]
    omega

theorem present (h : Moves n hand loose handle s' hand' loose')
    (hservices : n'.services = Function.update n.services handle s') (htrace : n'.trace = n.trace)
    (hthere : Present n call dest) : Present n' call dest := by
  rwa [Present, h.alive hservices, htrace]

/-- A message that lets a call go on is there still, or the call is a loose one. -/
theorem message (h : Moves n hand loose handle s' hand' loose')
    (hservices : n'.services = Function.update n.services handle s')
    (hcall : Called n.trace (other, session) co dest) {m : Message α}
    (hm : m ∈ (n.services other).queue) (htells : Tells m (other, session) dest) :
    m ∈ (n'.services other).queue ∨ loose' (other, session) := by
  rw [hservices]
  by_cases heq : other = handle
  · rw [heq] at hm
    refine (h.tells m hm).imp (fun hm => ?_) fun hlost => hlost _ co dest heq hcall htells
    rwa [heq, Function.update_self]
  · rw [Function.update_of_ne heq]
    exact .inl hm

/-- A call has its place still, or another one, or is a loose one. -/
theorem placed (h : Moves n hand loose handle s' hand' loose')
    (hservices : n'.services = Function.update n.services handle s') (htrace : n'.trace = n.trace)
    (hcall : Called n.trace (other, session) co dest) (hplaced : Placed n (other, session) dest) :
    Placed n' (other, session) dest ∨ loose' (other, session) := by
  have hself : n'.services handle = s' := by rw [hservices, Function.update_self]
  have hother : ∀ other, other ≠ handle → n'.services other = n.services other := by
    intro other hne
    rw [hservices, Function.update_of_ne hne]
  cases hplaced with
  | waits m hm hrequests =>
      by_cases heq : dest = handle
      · rw [heq] at hm
        refine (h.waits _ m hm hrequests).imp_left fun hm => .waits m ?_ hrequests
        rwa [heq, hself]
      · exact .inl (.waits m (by rwa [hother dest heq]) hrequests)
  | handled co' hhandle hrun hthere =>
      have hthere := h.present hservices htrace hthere
      by_cases heq : dest = handle
      · rw [heq] at hhandle hrun
        rcases h.handles _ co' hhandle hrun with ⟨hhandle, hrun⟩ | hmem | hlost
        · exact .inl (.handled co' (by rwa [heq, hself]) (by rwa [heq, hself]) hthere)
        · exact .inl (.promised (by rwa [heq, hself]) hthere)
        · exact .inr hlost
      · exact .inl (.handled co' (by rwa [hother dest heq]) (by rwa [hother dest heq]) hthere)
  | promised hmem hthere =>
      have hthere := h.present hservices htrace hthere
      by_cases heq : dest = handle
      · rw [heq] at hmem
        refine (h.promised _ hmem).imp_left fun hmem => .promised ?_ hthere
        rwa [heq, hself]
      · exact .inl (.promised (by rwa [hother dest heq]) hthere)
  | answered m hm hsession' hprototype =>
      exact (h.message hservices hcall hm (.inl ⟨hprototype, hsession'⟩)).imp_left
        fun hm => .answered m hm hsession' hprototype
  | down m hm hzero hsource hprototype =>
      exact (h.message hservices hcall hm (.inr ⟨hprototype, hzero, hsource⟩)).imp_left fun hm =>
        .down m hm hzero hsource hprototype
  | failed hmem =>
      refine .inl (.failed ?_)
      change session ∈ (n'.services other).errorQueue
      by_cases heq : other = handle
      · rwa [heq, hself, h.errors, ← heq]
      · rwa [hother other heq]
  | forgot hmem => exact .inl (.forgot (htrace ▸ hmem))

end Moves

theorem Ok.move (h : n.Ok hand loose) (f : Service α → Service α) (hf : f (n.services handle) = s')
    (hmoves : Moves n hand loose handle s' hand' loose') : (n.modify handle f).Ok hand' loose' := by
  have hservices : (n.modify handle f).services = Function.update n.services handle s' := by
    rw [← hf]
    rfl
  have htrace : (n.modify handle f).trace = n.trace := trace_modify ..
  constructor
  · intro other
    rw [hservices, htrace]
    by_cases heq : other = handle
    · rw [heq, Function.update_self]
      exact hmoves.ok
    · rw [Function.update_of_ne heq]
      exact h.services other
  · exact h.once
  · intro other m hm hprototype
    rw [hmoves.sessionId hservices]
    exact h.response other m (hmoves.queues hservices other hm) hprototype
  · intro call hcall
    rw [hmoves.sessionId hservices]
    exact h.timers call hcall
  · exact fun dest call hne =>
      Nat.le_trans (hmoves.tokens_le hservices htrace dest hne) (h.token dest call hne)
  · exact fun dest call hne hpos => h.called dest call hne
      (Nat.lt_of_lt_of_le hpos (hmoves.tokens_le hservices htrace dest hne))
  · exact h.returned
  · intro other m hm
    rw [hmoves.lives hservices]
    exact h.down other m (hmoves.queues hservices other hm)
  · intro other dest hdeadService
    rw [hmoves.lives hservices]
    refine h.dead other dest ?_
    rw [hservices] at hdeadService
    by_cases heq : other = handle
    · rwa [heq, Function.update_self, hmoves.dead, ← heq] at hdeadService
    · rwa [Function.update_of_ne heq] at hdeadService
  · intro other session co dest hstatus hcall hcaller
    rw [hmoves.alive hservices] at hcaller
    rcases h.placed other session co dest (hmoves.status hservices hstatus) hcall hcaller with
      hplaced | hlost
    · exact hmoves.placed hservices htrace hcall hplaced
    · refine (hmoves.loose _ co dest hlost hcall).symm.imp_left ?_
      rintro ⟨heq, hthere, co', hhandle, hrun⟩
      have hself : (n.modify handle f).services dest = s' := by
        rw [heq, hservices, Function.update_self]
      exact .handled co' (by rwa [hself]) (by rwa [hself])
        (hmoves.present hservices htrace (heq ▸ hthere))

end Move

section Counts

variable {s s' : Service α}

theorem countP_range_erase {p q : Nat → Bool} {k i : Nat} (hi : i < k) (hgone : q i = false)
    (hsame : ∀ j, j ≠ i → q j = p j) :
    (List.range k).countP q + (if p i then 1 else 0) = (List.range k).countP p := by
  induction k with
  | zero => cases hi
  | succ k ih =>
      rw [List.range_succ, List.countP_append, List.countP_append, List.countP_singleton,
        List.countP_singleton]
      rcases Nat.lt_succ_iff_lt_or_eq.mp hi with hlt | rfl
      · have hk := hsame k (Nat.ne_of_gt hlt)
        have hcount := ih hlt
        rw [hk]
        omega
      · have hcount : (List.range i).countP q = (List.range i).countP p :=
          List.countP_congr fun j hj => by rw [hsame j (Nat.ne_of_lt (List.mem_range.mp hj))]
        rw [hgone, hcount]
        simp

theorem handled_congr (hnextCo : s'.nextCo = s.nextCo)
    (hsame : ∀ c < s.nextCo, s'.handles call c = s.handles call c) :
    s'.handled call = s.handled call := by
  rw [Service.handled, Service.handled, hnextCo]
  exact List.countP_congr fun c hc => by rw [hsame c (List.mem_range.mp hc)]

/-- A coroutine leaves its request. -/
theorem handled_erase (hnextCo : s'.nextCo = s.nextCo) (hco : co < s.nextCo)
    (hgone : s'.handles call co = false)
    (hsame : ∀ c, c ≠ co → s'.handles call c = s.handles call c) :
    s'.handled call + (if s.handles call co then 1 else 0) = s.handled call := by
  rw [Service.handled, Service.handled, hnextCo]
  exact countP_range_erase hco hgone hsame

theorem handles_congr {c : Co} (hid : s'.sessionCoroutineId c = s.sessionCoroutineId c)
    (haddress : s'.sessionCoroutineAddress c = s.sessionCoroutineAddress c)
    (hresponse : s'.sessionResponse c = s.sessionResponse c) :
    s'.handles call c = s.handles call c := by
  rw [Service.handles, Service.handles, Service.request, Service.request, hid, haddress, hresponse]

theorem handles_setResponse_self (s : Service α) (co : Co) :
    (s.setResponse co).handles call co = false := by
  simp [Service.handles, Service.setResponse]

theorem handles_setResponse_of_ne {c : Co} (hne : c ≠ co) :
    (s.setResponse co).handles call c = s.handles call c :=
  handles_congr rfl rfl (Function.update_of_ne hne ..)

theorem handles_clear_self (s : Service α) (co : Co) : (s.clear co).handles call co = false := by
  simp [Service.handles, Service.clear, Service.request]

theorem handles_clear_of_ne {c : Co} (hne : c ≠ co) :
    (s.clear co).handles call c = s.handles call c :=
  handles_congr (Function.update_of_ne hne ..) (Function.update_of_ne hne ..) rfl

theorem handles_coCreate_of_ne {request : Option CallId} {status : Status} {c : Co}
    (hne : c ≠ s.nextCo) :
    (s.coCreate request status).handles call c = s.handles call c :=
  handles_congr (Function.update_of_ne hne ..) (Function.update_of_ne hne ..)
    (Function.update_of_ne hne ..)

theorem handles_coCreate_self {request : Option CallId} {status : Status} :
    (s.coCreate request status).handles call s.nextCo = decide (request = some call) := by
  cases request <;> simp [Service.handles, Service.coCreate, Service.request]

theorem handled_coCreate {request : Option CallId} {status : Status} :
    (s.coCreate request status).handled call = s.handled call + if request =
    some call then 1 else 0 := by
  have hcount : (List.range s.nextCo).countP ((s.coCreate request status).handles call) =
      s.handled call :=
    List.countP_congr fun c hc => by
      rw [handles_coCreate_of_ne (Nat.ne_of_lt (List.mem_range.mp hc))]
  have hnextCo : (s.coCreate request status).nextCo = s.nextCo + 1 := rfl
  rw [Service.handled, hnextCo, List.range_succ, List.countP_append, List.countP_singleton, hcount,
    handles_coCreate_self]
  simp

/-- A request is what one coroutine works on. -/
theorem request_of_handles (h : s.handles call co = true) :
    s.request co = some call ∧ s.sessionResponse co = false := by
  simpa [Service.handles] using h

theorem handles_eq {call' : CallId} (hrequest : s.request co = some call)
    (h : s.handles call' co = true) :
    call' = call := by
  rw [(request_of_handles h).1] at hrequest
  exact Option.some_inj.mp hrequest

theorem lt_nextCo {trace : List (Happened α)} (h : s.Ok trace handle)
    (hstatus : s.status co ≠ .stopped) :
    co < s.nextCo := by
  by_contra hge
  exact hstatus (h.fresh co (Nat.le_of_not_lt hge))

end Counts

section Take

variable {m : Message α} {queue : List (Message α)}

theorem requests_iff : m.requests call = true ↔ m.prototype.isRequest = true ∧
    call = (m.source, m.session) := by
  rw [Message.requests, decide_eq_true_eq, Prod.ext_iff, @eq_comm _ m.source, @eq_comm _ m.session]

/-- A message that is taken leaves its calls without a place. -/
theorem Ok.pop (h : n.Ok none fun _ => False) (hqueue : (n.services handle).queue = m :: queue)
    {hand' : Option (Handle × CallId)}
    (hhand : ∀ x, hand' = some x → x.1 = handle ∧ m.requests x.2 = true) :
    (n.modify handle fun s => { s with queue }).Ok hand' fun call =>
      m.requests call = true ∨ call.1 = handle ∧ ∃ co dest, Called n.trace call co dest ∧
      Tells m call dest := by
  obtain ⟨s', hs'⟩ : ∃ s' : Service α, s' = { n.services handle with queue } := ⟨_, rfl⟩
  have hqueue' : s'.queue = queue := by rw [hs']
  refine h.move _ hs'.symm ⟨?_, by rw [hs'], by rw [hs'], ?_, by rw [hs'], ?_, by rw [hs'],
    ?_, ?_, ?_, ?_, ?_, ?_, ?_⟩
  · rw [hs']
    exact (h.services handle).of_eq (.inl rfl) rfl rfl rfl (Nat.le_refl _) rfl rfl (.refl _)
  · rw [hqueue, hqueue']
    exact List.subset_cons_self ..
  · rw [hs']
    exact fun _ _ h => h
  · intro call _
    have hcount : (n.services handle).tokens call = s'.tokens call +
        if m.requests call then 1 else 0 := by
      have hhandled : s'.handled call = (n.services handle).handled call := by rw [hs']; rfl
      have hunresponse : s'.unresponse = (n.services handle).unresponse := by rw [hs']
      rw [Service.tokens, Service.tokens, hhandled, hunresponse, hqueue, hqueue', List.countP_cons]
      omega
    rw [hcount, if_neg (Option.some_ne_none _).symm]
    by_cases hheld : hand' = some (handle, call)
    · rw [if_pos hheld, (hhand _ hheld).2]
      simp
    · rw [if_neg hheld]
      omega
  · intro dest call hne hheld
    exact hne (hhand _ hheld).1
  · intro call x hx hrequests
    rw [hqueue] at hx
    rcases List.mem_cons.mp hx with rfl | hx
    · exact .inr (.inl hrequests)
    · exact .inl (hqueue' ▸ hx)
  · rw [hs']
    exact fun call co hhandles hrun => .inl ⟨hhandles, hrun⟩
  · rw [hs']
    exact fun call hmem => .inl hmem
  · intro x hx
    rw [hqueue] at hx
    rcases List.mem_cons.mp hx with rfl | hx
    · exact .inr fun call co dest heq hcall htells => .inr ⟨heq, co, dest, hcall, htells⟩
    · exact .inl (hqueue' ▸ hx)
  · exact fun call co dest hlost => hlost.elim

/-- A call has a session. -/
theorem Ok.session_ne (h : n.Ok hand loose) (hcall : Called n.trace call co dest) : call.2 ≠ 0 :=
  Nat.pos_iff_ne_zero.mp ((h.services call.1).called call.2 co dest hcall).1

/-- A coroutine is made for the request in hand. -/
theorem Ok.take (h : n.Ok (if call.2 = 0 then none else some (handle, call)) fun call' => call'
      = call)
    (hpresent : Present n call handle) :
    (n.modify
      handle fun s => { s.coCreate (some call) .running with running := some s.nextCo }).Ok none
      fun _ => False := by
  obtain ⟨s', hs'⟩ : ∃ s' : Service α, s' =
    { (n.services handle).coCreate (some call) .running
      with running := some (n.services handle).nextCo } := ⟨_, rfl⟩
  have hstatus : ∀ c, c ≠ (n.services handle).nextCo → s'.status c
      = (n.services handle).status c := by
    intro c hne
    rw [hs']
    exact Function.update_of_ne hne ..
  have hnew : s'.status (n.services handle).nextCo = .running := by
    rw [hs']
    exact Function.update_self ..
  have hhandles : ∀ call' c, s'.handles call' c =
      ((n.services handle).coCreate (some call) .running).handles call' c := by
    intro call' c
    rw [hs']
    rfl
  refine h.move _ hs'.symm ⟨?_, by rw [hs']; rfl, by rw [hs']; rfl, ?_, by rw [hs']; rfl, ?_,
    by rw [hs']; rfl, ?_, fun _ _ _ => Option.some_ne_none _ ∘ Eq.symm, ?_, ?_, ?_, ?_, ?_⟩
  · rw [hs']
    exact (h.services handle).create call
  · rw [hs']
    exact List.Subset.refl _
  · intro c session hc
    by_cases heq : c = (n.services handle).nextCo
    · rw [heq, hnew] at hc
      cases hc
    · rwa [hstatus c heq] at hc
  · intro call' hne
    have hhandled : s'.handled call' = (n.services handle).handled call' + if some call =
        some call' then 1 else 0 := by
      rw [hs']
      exact @handled_coCreate α call' (n.services handle) (some call) .running
    have hqueue : s'.queue = (n.services handle).queue := by rw [hs']; rfl
    have hunresponse : s'.unresponse = (n.services handle).unresponse := by rw [hs']; rfl
    rw [Service.tokens, Service.tokens, hhandled, hqueue, hunresponse,
      if_neg (Option.some_ne_none _).symm]
    by_cases heq : call = call'
    · subst heq
      rw [if_neg hne, if_pos rfl, if_pos rfl]
      omega
    · rw [if_neg (by simpa using heq)]
      omega
  · rw [hs']
    exact fun _ _ hm _ => .inl hm
  · intro call' c hhandle hrun
    have hlt := Nat.ne_of_lt (lt_nextCo (h.services handle) hrun)
    rw [hhandles, handles_coCreate_of_ne hlt, hstatus c hlt]
    exact .inl ⟨hhandle, hrun⟩
  · rw [hs']
    exact fun _ hmem => .inl hmem
  · rw [hs']
    exact fun _ hm => .inl hm
  · rintro call' co' dest' rfl hcall
    have hne := h.session_ne hcall
    obtain ⟨co'', hcall'⟩ := h.called handle call' hne (by rw [if_neg hne, if_pos rfl]; omega)
    refine .inr ⟨(h.receiver hcall' hcall).2, hpresent, (n.services handle).nextCo, ?_, ?_⟩
    · rw [hhandles, handles_coCreate_self]
      exact decide_eq_true rfl
    · rw [hnew]
      exact fun hstop => by cases hstop

/-- A coroutine leaves its request, which is in hand when it was not answered. -/
theorem Ok.release {s' : Service α} (h : n.Ok none fun _ => False) {f : Service α → Service α}
    (hf : f (n.services handle) = s') (hok : s'.Ok n.trace handle)
    (hco : (n.services handle).status co ≠ .stopped)
    (hlife : s'.life = (n.services handle).life)
    (hsession : s'.sessionId = (n.services handle).sessionId)
    (hqueue : s'.queue = (n.services handle).queue)
    (hdead : s'.deadService = (n.services handle).deadService)
    (herrors : s'.errorQueue = (n.services handle).errorQueue)
    (hnextCo : s'.nextCo = (n.services handle).nextCo)
    (hcalling : ∀ c session, s'.status c = .calling session → (n.services handle).status c =
      .calling session)
    (hunresponse : s'.unresponse = (n.services handle).unresponse)
    (hgone : ∀ call, s'.handles call co = false)
    (hsame : ∀ call c, c ≠ co → s'.handles call c = (n.services handle).handles call c)
    (hstatus : ∀ c, c ≠ co → s'.status c = (n.services handle).status c)
    {hand' : Option (Handle × CallId)}
    (hhand : ∀ x, hand' = some x → x.1 = handle ∧ (n.services handle).handles x.2 co = true) :
    (n.modify handle f).Ok hand' fun call => (n.services handle).handles call co = true := by
  refine h.move f hf ⟨hok, hlife, hsession, ?_, hdead, hcalling, herrors, ?_, ?_, ?_, ?_, ?_, ?_,
    ?_⟩
  · rw [hqueue]
    exact List.Subset.refl _
  · intro call _
    have hcount :=
      handled_erase hnextCo (lt_nextCo (h.services handle) hco) (hgone call) (hsame call)
    rw [Service.tokens, Service.tokens, hqueue, hunresponse,
      if_neg (Option.some_ne_none _).symm, ← hcount]
    by_cases hheld : hand' = some (handle, call)
    · rw [if_pos hheld, if_pos (hhand _ hheld).2]
      omega
    · rw [if_neg hheld]
      omega
  · intro dest call hne hheld
    exact hne (hhand _ hheld).1
  · rw [hqueue]
    exact fun _ _ hm _ => .inl hm
  · intro call c hhandles hrun
    by_cases heq : c = co
    · rw [heq] at hhandles
      exact .inr (.inr hhandles)
    · rw [hsame call c heq, hstatus c heq]
      exact .inl ⟨hhandles, hrun⟩
  · rw [hunresponse]
    exact fun _ hmem => .inl hmem
  · rw [hqueue]
    exact fun _ hm => .inl hm
  · exact fun _ _ _ hlost => hlost.elim

/-- A coroutine promises an answer. -/
theorem Ok.promise (h : n.Ok none fun _ => False) (hco : (n.services handle).status co ≠ .stopped)
    (hhandles : (n.services handle).handles call co = true) :
    (n.modify handle
      fun s => { s.setResponse co with unresponse := s.unresponse ++ [call] }).Ok none
      fun _ => False := by
  obtain ⟨s', hs'⟩ : ∃ s' : Service α, s' =
    { (n.services handle).setResponse co with unresponse := (n.services handle).unresponse ++
      [call] } := ⟨_, rfl⟩
  have hsame : ∀ call' c, s'.handles call' c =
      ((n.services handle).setResponse co).handles call' c := by
    intro call' c
    rw [hs']
    rfl
  have hunresponse : s'.unresponse = (n.services handle).unresponse ++ [call] := by rw [hs']
  refine h.move _ hs'.symm ⟨?_, by rw [hs']; rfl, by rw [hs']; rfl, ?_, by rw [hs']; rfl, ?_,
    by rw [hs']; rfl, ?_, fun _ _ _ => Option.some_ne_none _ ∘ Eq.symm, ?_, ?_, ?_, ?_, ?_⟩
  · rw [hs']
    exact (h.services handle).of_eq (.inl rfl) rfl rfl rfl (Nat.le_refl _) rfl rfl (.refl _)
  · rw [hs']
    exact List.Subset.refl _
  · rw [hs']
    exact fun _ _ h => h
  · intro call' _
    have hcount : s'.handled call' + (if (n.services handle).handles call' co then 1 else 0) =
        (n.services handle).handled call' := by
      refine handled_erase (by rw [hs']; rfl) (lt_nextCo (h.services handle) hco) ?_ ?_
      · rw [hsame, handles_setResponse_self]
      · intro c hne
        rw [hsame, handles_setResponse_of_ne hne]
    have hqueue : s'.queue = (n.services handle).queue := by rw [hs']; rfl
    rw [Service.tokens, Service.tokens, hqueue, hunresponse,
      if_neg (Option.some_ne_none _).symm, ← hcount,
      List.count_append]
    by_cases heq : call = call'
    · subst heq
      rw [if_pos hhandles]
      simp
      omega
    · rw [List.count_singleton, if_neg (by simpa using heq)]
      omega
  · rw [hs']
    exact fun _ _ hm _ => .inl hm
  · intro call' c hhandle hrun
    by_cases heq : c = co
    · subst heq
      rw [handles_eq (request_of_handles hhandles).1 hhandle, hunresponse]
      exact .inr (.inl (List.mem_append_right _ (List.mem_singleton_self _)))
    · rw [hsame, handles_setResponse_of_ne heq, hs']
      exact .inl ⟨hhandle, hrun⟩
  · intro call' hmem
    rw [hunresponse]
    exact .inl (List.mem_append_left _ hmem)
  · rw [hs']
    exact fun _ hm => .inl hm
  · exact fun _ _ _ hlost => hlost.elim

/-- A promised answer is taken up. -/
theorem Ok.unpromise (h : n.Ok none fun _ => False) (hmem : call ∈ (n.services handle).unresponse) :
    (n.modify handle fun s => { s with unresponse := s.unresponse.erase call }).Ok (some
      (handle, call))
      fun call' => call' = call := by
  obtain ⟨s', hs'⟩ : ∃ s' : Service α, s' =
    { n.services handle with unresponse := (n.services handle).unresponse.erase call } := ⟨_, rfl⟩
  have hunresponse : s'.unresponse = (n.services handle).unresponse.erase call := by rw [hs']
  refine h.move _ hs'.symm ⟨?_, by rw [hs'], by rw [hs'], ?_, by rw [hs'], ?_, by rw [hs'],
    ?_, ?_, ?_, ?_, ?_, ?_, ?_⟩
  · rw [hs']
    exact (h.services handle).of_eq (.inl rfl) rfl rfl rfl (Nat.le_refl _) rfl rfl (.refl _)
  · rw [hs']
    exact List.Subset.refl _
  · rw [hs']
    exact fun _ _ h => h
  · intro call' _
    have hhandled : s'.handled call' = (n.services handle).handled call' := by rw [hs']; rfl
    have hqueue : s'.queue = (n.services handle).queue := by rw [hs']
    rw [Service.tokens, Service.tokens, hqueue, hhandled, hunresponse,
      if_neg (Option.some_ne_none _).symm,
      List.count_erase]
    by_cases heq : call = call'
    · subst heq
      have hpos := List.count_pos_iff.mpr hmem
      rw [if_pos rfl]
      simp
      omega
    · rw [if_neg (by simpa using heq), if_neg (by simpa using heq)]
      omega
  · intro dest call' hne hheld
    cases hheld
    exact hne rfl
  · rw [hs']
    exact fun _ _ hm _ => .inl hm
  · rw [hs']
    exact fun _ _ hhandles hrun => .inl ⟨hhandles, hrun⟩
  · intro call' hmem'
    by_cases heq : call' = call
    · exact .inr heq
    · rw [hunresponse]
      exact .inl ((List.mem_erase_of_ne heq).mpr hmem')
  · rw [hs']
    exact fun _ hm => .inl hm
  · exact fun _ _ _ hlost => hlost.elim

end Take

section Keeps

variable {s s' : Service α}

theorem Keeps.of_eq
    (hstatus : s'.status = s.status ∨ ∃ co status, s'.status = Function.update s.status co status ∧
      (∀ session, status ≠ .calling session) ∧
      (status ≠ .stopped ∨ ∀ call, s.handles call co = false))
    (hlife : s'.life = s.life) (hqueue : s'.queue = s.queue) (hsession : s.sessionId ≤ s'.sessionId)
    (hnextCo : s'.nextCo = s.nextCo) (hid : s'.sessionCoroutineId = s.sessionCoroutineId)
    (haddress : s'.sessionCoroutineAddress = s.sessionCoroutineAddress)
    (hresponse : s'.sessionResponse = s.sessionResponse)
    (hunresponse : s'.unresponse = s.unresponse)
    (herrors : ∀ co session, s'.status co = .calling session → session ∈ s.errorQueue →
      session ∈ s'.errorQueue) :
    Keeps s s' := by
  have hhandles : ∀ call co, s'.handles call co = s.handles call co := fun call co =>
    handles_congr (by rw [hid]) (by rw [haddress]) (by rw [hresponse])
  refine ⟨hlife, hqueue, hsession, fun call => handled_congr hnextCo fun c _ => hhandles call c, ?_,
    hunresponse, ?_,
    herrors⟩
  · intro call co hhandle hrun
    rw [hhandles]
    refine ⟨hhandle, ?_⟩
    rcases hstatus with hstatus | ⟨co', status, hstatus, -, hstop⟩
    · rwa [hstatus]
    · rw [hstatus]
      by_cases heq : co = co'
      · subst heq
        rw [Function.update_self]
        refine hstop.resolve_right fun hnone => ?_
        rw [hnone call] at hhandle
        cases hhandle
      · rwa [Function.update_of_ne heq]
  · intro co session hcalling
    rcases hstatus with hstatus | ⟨co', status, hstatus, hnot, -⟩
    · rwa [hstatus] at hcalling
    · rw [hstatus] at hcalling
      by_cases heq : co = co'
      · rw [heq, Function.update_self] at hcalling
        exact absurd hcalling (hnot session)
      · rwa [Function.update_of_ne heq] at hcalling

theorem Keeps.coCreate {trace : List (Happened α)} (h : s.Ok trace handle) {status : Status}
    (hnot : ∀ session, status ≠ .calling session) : Keeps s (s.coCreate none status) := by
  refine ⟨rfl, rfl, Nat.le_refl _, fun call => ?_, ?_, rfl, ?_, fun _ _ _ h => h⟩
  · rw [handled_coCreate, if_neg (Option.some_ne_none _).symm, Nat.add_zero]
  · intro call co hhandle hrun
    have hne := Nat.ne_of_lt (lt_nextCo h hrun)
    rw [handles_coCreate_of_ne hne]
    refine ⟨hhandle, ?_⟩
    change Function.update s.status s.nextCo status co ≠ .stopped
    rwa [Function.update_of_ne hne]
  · intro co session hcalling
    change Function.update s.status s.nextCo status co = .calling session at hcalling
    by_cases heq : co = s.nextCo
    · rw [heq, Function.update_self] at hcalling
      exact absurd hcalling (hnot session)
    · rwa [Function.update_of_ne heq] at hcalling

theorem Keeps.trans {s'' : Service α} (h : Keeps s s') (h' : Keeps s' s'') : Keeps s s'' where
  life := h'.life.trans h.life
  queue := h'.queue.trans h.queue
  session := Nat.le_trans h.session h'.session
  handled := fun call => (h'.handled call).trans (h.handled call)
  handles := by
    intro call co hhandle hrun
    obtain ⟨hhandle, hrun⟩ := h.handles call co hhandle hrun
    exact h'.handles call co hhandle hrun
  unresponse := h'.unresponse.trans h.unresponse
  calling := fun co session hcalling => h.calling co session (h'.calling co session hcalling)
  errors := fun co session hcalling hmem =>
    h'.errors co session hcalling (h.errors co session (h'.calling co session hcalling) hmem)

theorem Keeps.resume (s : Service α) (co : Co) : Keeps s (s.resume co) := by
  unfold Service.resume
  cases s.status co with
  | running => exact .of_eq (.inl rfl) rfl rfl (Nat.le_refl _) rfl rfl rfl rfl rfl fun _ _ _ h => h
  | stopped => exact .of_eq (.inl rfl) rfl rfl (Nat.le_refl _) rfl rfl rfl rfl rfl fun _ _ _ h => h
  | _ =>
      exact .of_eq (.inr ⟨co, .running, rfl, fun _ h => (by cases h), .inl fun h => by cases h⟩)
        rfl rfl (Nat.le_refl _)
        rfl rfl rfl rfl rfl fun _ _ _ h => h

theorem Keeps.setWaiter (s : Service α) (session : Session) (waiter : Option Waiter) :
    Keeps s (s.setWaiter session waiter) :=
  .of_eq (.inl rfl) rfl rfl (Nat.le_refl _) rfl rfl rfl rfl rfl fun _ _ _ h => h

theorem Keeps.raise (s : Service α) : Keeps s s.raise :=
  .of_eq (.inl rfl) rfl rfl (Nat.le_refl _) rfl rfl rfl rfl rfl fun _ _ _ h => h

theorem Keeps.fail (hnone : ∀ call, s.handles call co = false) : Keeps s (s.fail co) :=
  .of_eq (.inr ⟨co, .stopped, rfl, fun _ h => (by cases h), .inr hnone⟩) rfl rfl (Nat.le_refl _)
    rfl rfl rfl rfl rfl
    fun _ _ _ h => h

end Keeps

section Resume

variable {s : Service α} {waiter : Option Waiter} {result : Option α}

theorem status_resume (h : (s.status co).session = some session) :
    (s.resume co).status co = .running := by
  unfold Service.resume
  cases hstatus : s.status co <;> rw [hstatus] at h <;>
    first | exact Function.update_self .. | cases h

theorem deadService_resume (s : Service α) (co : Co) :
    (s.resume co).deadService = s.deadService := by
  unfold Service.resume
  cases s.status co <;> rfl

theorem resume_modify_of_calling {g : Service α → Service α}
    (h : (g (n.services handle)).status co = .calling session)
    (result : Option α) : (n.modify handle g).resume handle co result =
      (n.modify handle fun s => (g s).resume co).note (.returned (handle, session) co result) := by
  have hstatus : ((n.modify handle g).services handle).status co = .calling session := by
    rw [services_modify_self, h]
  unfold Node.resume
  rw [hstatus, modify_modify]

theorem resume_modify {g : Service α → Service α}
    (h : ∀ session, (g (n.services handle)).status co ≠ .calling session)
    (result : Option α) :
    (n.modify handle g).resume handle co result = n.modify handle fun s => (g s).resume co := by
  unfold Node.resume
  rw [services_modify_self, modify_modify]
  cases hstatus : (g (n.services handle)).status co with
  | calling session => exact absurd hstatus (h session)
  | _ => rfl

/-- The coroutine that waits for a session goes on, and a call with this session needs no place any
more. -/
theorem Ok.resumes (h : n.Ok none loose) (g : Service α → Service α)
    (hg : g (n.services handle) = s.setWaiter session waiter)
    (hs : s.Ok n.trace handle) (hstatus : s.status = (n.services handle).status)
    (hdead : s.deadService = (n.services handle).deadService)
    (hkeeps : Keeps (n.services handle) ((g (n.services handle)).resume co))
    (hsession : ((n.services handle).status co).session = some session)
    (hwaiter : waiter = none ∨ waiter = some .brk ∧ (n.services handle).status co ≠
      .calling session)
    (hresult : (n.services handle).status co = .calling session → ∀ value, result = some value →
      ∃ dest, .answered (handle, session) dest value ∈ n.trace)
    (hloose : ∀ call, loose call → loose' call ∨ call = (handle, session)) :
    ((n.modify handle g).resume handle co result).Ok none loose' := by
  have hgstatus : (g (n.services handle)).status = (n.services handle).status := by
    rw [hg, ← hstatus]
    rfl
  have hgdead : ∀ dest, ((g (n.services handle)).resume co).deadService dest = true →
      (n.services handle).deadService dest = true ∨ (n.services dest).life = .exited := by
    intro dest hdest
    rw [deadService_resume, hg] at hdest
    exact .inl (hdead ▸ hdest)
  have hfound : ∀ call, loose call → loose' call ∨ call.1 = handle ∧ ∀ co',
      ((g (n.services handle)).resume co).status co' = .calling call.2 →
        call.2 ∈ ((g (n.services handle)).resume co).errorQueue := by
    intro call hlost
    refine (hloose call hlost).imp_right ?_
    rintro rfl
    refine ⟨rfl, fun co' hcalling => ?_⟩
    have hcalling' := hkeeps.calling co' session hcalling
    have heq : co' = co := (h.services handle).alone hsession (by rw [hcalling']; rfl)
    rw [heq, status_resume (by rw [hgstatus]; exact hsession)] at hcalling
    cases hcalling
  by_cases hcalling : (n.services handle).status co = .calling session
  · have hnone : waiter = none := hwaiter.resolve_right fun hbrk => hbrk.2 hcalling
    have hok : ((g (n.services handle)).resume co).Ok
        (n.trace ++ [.returned (handle, session) co result]) handle := by
      rw [hg, hnone]
      exact hs.returns (by rw [hstatus, hcalling]) result
    rw [resume_modify_of_calling (by rw [hgstatus, hcalling])]
    exact h.keep rfl (.inr ⟨co, session, result, rfl, hcalling, hresult hcalling⟩) hkeeps hok hgdead
      (fun call hcall => .inl hcall) hfound
  · have hok : ((g (n.services handle)).resume co).Ok n.trace handle := by
      rw [hg]
      exact hs.wake (by rw [hstatus, hsession])
        (by rw [hstatus]; exact hcalling) (hwaiter.imp_right And.left)
    have hnot : ∀ session', (g (n.services handle)).status co ≠ .calling session' := by
      intro session' hcalling'
      rw [hgstatus] at hcalling'
      rw [hcalling'] at hsession hcalling
      cases hsession
      exact hcalling rfl
    rw [resume_modify hnot]
    exact h.keep rfl (.inl rfl) hkeeps hok hgdead (fun call hcall => .inl hcall) hfound

end Resume

end Node

end SdyServer.Rpc
