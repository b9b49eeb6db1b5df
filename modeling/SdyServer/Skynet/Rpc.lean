import Mathlib.Logic.Function.Basic
import SdyServer.Lib.Run

/-!
# Calls between services

A service runs coroutines. One that calls another service sends a request with a new session and
sleeps; the other service runs a coroutine for the request, which answers with a message of the same
session at any later time, and may call, sleep and raise before it does. Services may exit while
calls are under way. The values that are sent are a parameter, and so is what the coroutines do.
-/

namespace SdyServer.Rpc

abbrev Handle := Nat
abbrev Session := Nat
abbrev Co := Nat

/-- `PTYPE_RESPONSE`, `PTYPE_ERROR`, a protocol that the receiver dispatches, and one that it does
not. -/
inductive Prototype where
  | response
  | error
  | lua
  | unknown
deriving DecidableEq, Repr

structure Message (α : Type) where
  source : Handle
  prototype : Prototype
  session : Session
  value : Option α
deriving DecidableEq, Repr

/-- What `session_id_coroutine` holds. -/
inductive Waiter where
  | co (co : Co)
  | brk
deriving DecidableEq, Repr

/-- Where a coroutine is: not begun, after `skynet.fork` or `skynet.timeout`, or at a yield of
`skynet.call`, `skynet.sleep` or `skynet.wait`, or gone. -/
inductive Status where
  | ready
  | timeout (session : Session)
  | running
  | calling (session : Session)
  | sleeping (session : Session)
  | waiting (session : Session)
  | stopped
deriving DecidableEq, Repr

/-- The context of a service: there is none yet, it takes messages, or it is retired. -/
inductive Life where
  | unborn
  | alive
  | exited
deriving DecidableEq, Repr

/-- What `suspend` has still to do for the coroutines under the one that runs. -/
inductive Work where
  | wakeup
  | errors
deriving DecidableEq, Repr

/-- A session of a service. -/
abbrev CallId := Handle × Session

/-- What can be seen of the calls: `late` is a request that is taken by a service that has exited,
`forgot` one whose coroutine ends without an answer. -/
inductive Happened (α : Type) where
  | called (call : CallId) (co : Co) (dest : Handle) (value : α)
  | answered (call : CallId) (source : Handle) (value : α)
  | returned (call : CallId) (co : Co) (result : Option α)
  | late (call : CallId) (dest : Handle)
  | forgot (call : CallId) (dest : Handle)
deriving DecidableEq, Repr

/-- The upvalues of `skynet.lua` in one service, its context and the messages that wait for it. -/
structure Service (α : Type) where
  life : Life := .unborn
  queue : List (Message α) := []
  sessionId : Session := 0
  nextCo : Co := 0
  status : Co → Status := fun _ => .stopped
  sessionIdCoroutine : Session → Option Waiter := fun _ => none
  sessionCoroutineId : Co → Option Session := fun _ => none
  sessionCoroutineAddress : Co → Option Handle := fun _ => none
  sessionResponse : Co → Bool := fun _ => false
  unresponse : List CallId := []
  wakeupQueue : List Co := []
  sleepSession : Co → Option Session := fun _ => none
  watchingSession : Session → Option Handle := fun _ => none
  deadService : Handle → Bool := fun _ => false
  errorQueue : List Session := []
  forkQueue : List Co := []
  running : Option Co := none
  work : List Work := []

/-- What a coroutine does next: `known` says that the receiver dispatches the protocol, `large` that
the message is too large to be sent. -/
inductive Act (α : Type) where
  | send (dest : Handle) (known : Bool) (value : α)
  | call (dest : Handle) (known large : Bool) (value : α)
  | sleep
  | timeout
  | wait
  | wakeup (co : Co)
  | fork
  | ret (value : α) (large : Bool)
  | response
  | respond (call : CallId) (ok large : Bool) (value : α)
  | exit
  | finish
  | raise
deriving DecidableEq, Repr

/-- A service starts; a worker takes a message for it, it goes on with what `suspend` has left, or
with a coroutine that was forked; the coroutine that runs does something; a timer is due; a message
for a service that has exited is dropped. -/
inductive Event (α : Type) where
  | launch (handle : Handle)
  | deliver (handle : Handle)
  | work (handle : Handle)
  | fork (handle : Handle) (i : Nat)
  | act (handle : Handle) (act : Act α)
  | expire (i : Nat)
  | drop (handle : Handle)
deriving DecidableEq, Repr

namespace Service

variable {α : Type}

section Model

def alive (s : Service α) : Bool := s.life = .alive

def run (s : Service α) (co : Co) : Service α :=
  { s with running := some co, status := Function.update s.status co .running }

/-- A yield after which `suspend` looks at the coroutines to be woken and at the failed calls. -/
def yield (s : Service α) (co : Co) (status : Status) : Service α :=
  { s with
    running := none
    status := Function.update s.status co status
    work := .wakeup :: .errors :: s.work }

/-- An error leaves `suspend` with all that it was called from. -/
def raise (s : Service α) : Service α := { s with running := none, work := [] }

/-- A coroutine that has raised, or whose command `suspend` has refused. -/
def fail (s : Service α) (co : Co) : Service α :=
  { s with status := Function.update s.status co .stopped }.raise

def setWaiter (s : Service α) (session : Session) (waiter : Option Waiter) : Service α :=
  { s with sessionIdCoroutine := Function.update s.sessionIdCoroutine session waiter }

def setResponse (s : Service α) (co : Co) : Service α :=
  { s with sessionResponse := Function.update s.sessionResponse co true }

/-- `skynet_context_newsession`. -/
def newsession (s : Service α) : Service α := { s with sessionId := s.sessionId + 1 }

/-- What `skynet.call`, `skynet.sleep` and `skynet.wait` do when they are resumed. -/
def resume (s : Service α) (co : Co) : Service α :=
  match s.status co with
  | .calling session =>
      { s with watchingSession := Function.update s.watchingSession session none }.run co
  | .sleeping _ => { s with sleepSession := Function.update s.sleepSession co none }.run co
  | .waiting session =>
      { s with
        sleepSession := Function.update s.sleepSession co none
        sessionIdCoroutine := Function.update s.sessionIdCoroutine session none }.run co
  | .ready => s.run co
  | .timeout _ => s.run co
  | .running => s
  | .stopped => s

/-- `co_create`, for a request when there is one. -/
def coCreate (s : Service α) (request : Option CallId) (status : Status) : Service α :=
  { s with
    nextCo := s.nextCo + 1
    status := Function.update s.status s.nextCo status
    sessionCoroutineId := Function.update s.sessionCoroutineId s.nextCo (request.map Prod.snd)
    sessionCoroutineAddress :=
      Function.update s.sessionCoroutineAddress s.nextCo (request.map Prod.fst)
    sessionResponse := Function.update s.sessionResponse s.nextCo false }

/-- The request of a coroutine. -/
def request (s : Service α) (co : Co) : Option CallId :=
  match s.sessionCoroutineAddress co, s.sessionCoroutineId co with
  | some address, some session => some (address, session)
  | _, _ => none

/-- The coroutine has a request that it has not answered. -/
def handles (s : Service α) (call : CallId) (co : Co) : Bool :=
  s.request co = some call ∧ s.sessionResponse co = false

/-- The end of a coroutine. -/
def clear (s : Service α) (co : Co) : Service α :=
  { s with
    sessionCoroutineId := Function.update s.sessionCoroutineId co none
    sessionCoroutineAddress := Function.update s.sessionCoroutineAddress co none }

/-- `_error_dispatch`. -/
def errorDispatch (s : Service α) (errorSession : Session) (errorSource : Handle) : Service α :=
  if errorSession = 0 then
    { s with
      deadService := Function.update s.deadService errorSource true
      errorQueue := s.errorQueue ++
        (List.range (s.sessionId + 1)).filter fun session => s.watchingSession session =
          some errorSource }
  else if (s.watchingSession errorSession).isSome then
    { s with errorQueue := s.errorQueue ++ [errorSession] }
  else s

/-- Who is told that a service exits: those that it answers, those that it has promised an answer,
and those that it calls. -/
def exitErrors (s : Service α) : List CallId :=
  ((List.range s.nextCo).filterMap s.request).filter (fun call => call.2 ≠ 0) ++
    s.unresponse.filter (fun call => call.2 ≠ 0 ∧ !s.deadService call.1) ++
    (((List.range (s.sessionId + 1)).filterMap s.watchingSession).dedup.map fun dest => (dest, 0))

end Model

end Service

/-- The services of a process, and the timers that run. -/
structure Node (α : Type) where
  services : Handle → Service α
  timers : List CallId := []
  trace : List (Happened α) := []

namespace Node

variable {α : Type}

section Model

def modify (n : Node α) (handle : Handle) (f : Service α → Service α) : Node α :=
  { n with services := Function.update n.services handle (f (n.services handle)) }

def note (n : Node α) (happened : Happened α) : Node α := { n with trace := n.trace ++ [happened] }

/-- `skynet_mq_push`. -/
def post (n : Node α) (dest : Handle) (message : Message α) : Node α :=
  n.modify dest fun s => { s with queue := s.queue ++ [message] }

/-- `skynet_context_push`: nothing is sent to a service that has exited. -/
def push (n : Node α) (dest : Handle) (message : Message α) : Node α :=
  if (n.services dest).alive then n.post dest message else n

def pushError (n : Node α) (source : Handle) (call : CallId) : Node α :=
  n.push call.1 ⟨source, .error, call.2, none⟩

/-- The answer to a request, or an error when it is too large. -/
def answer (n : Node α) (source : Handle) (call : CallId) (large : Bool) (value : α) : Node α :=
  if large then n.pushError source call
  else if (n.services call.1).alive then
    (n.push call.1 ⟨source, .response, call.2, some value⟩).note (.answered call source value)
  else n

/-- `coroutine_resume`. -/
def resume (n : Node α) (handle : Handle) (co : Co) (result : Option α) : Node α :=
  let n' := n.modify handle fun s => s.resume co
  match (n.services handle).status co with
  | .calling session => n'.note (.returned (handle, session) co result)
  | _ => n'

/-- `dispatch_wakeup`. -/
def dispatchWakeup (n : Node α) (handle : Handle) : Node α :=
  match (n.services handle).wakeupQueue with
  | [] => n
  | co :: wakeupQueue =>
      let n := n.modify handle fun s => { s with wakeupQueue }
      match (n.services handle).sleepSession co with
      | none => n
      | some session =>
          (n.modify handle fun s => s.setWaiter session (some .brk)).resume handle co none

/-- `dispatch_error_queue`; a session whose coroutine has gone on raises. -/
def dispatchErrorQueue (n : Node α) (handle : Handle) : Node α :=
  match (n.services handle).errorQueue with
  | [] => n
  | session :: errorQueue =>
      let waiter := (n.services handle).sessionIdCoroutine session
      let n := n.modify handle fun s => { s with errorQueue }.setWaiter session none
      match waiter with
      | some (.co co) => n.resume handle co none
      | _ => n.modify handle Service.raise

/-- `raw_dispatch_message`. -/
def rawDispatchMessage (n : Node α) (handle : Handle) (message : Message α) : Node α :=
  match message.prototype with
  | .response =>
      let waiter := (n.services handle).sessionIdCoroutine message.session
      let n := n.modify handle fun s => s.setWaiter message.session none
      match waiter with
      | some (.co co) => n.resume handle co message.value
      | some .brk => n
      | none => n.modify handle Service.raise
  | .error =>
      n.modify handle fun s =>
        { s.errorDispatch message.session message.source with work := .wakeup :: .errors :: s.work }
  | .lua =>
      let n := if (n.services handle).alive then n else n.note
        (.late (message.source, message.session) handle)
      n.modify handle fun s =>
        { s.coCreate (some (message.source, message.session)) .running with
          running := some s.nextCo }
  | .unknown =>
      if message.session = 0 then n.modify handle Service.raise
      else n.pushError handle (message.source, message.session)

/-- `skynet.exit`. -/
def exit (n : Node α) (handle : Handle) (co : Co) : Node α :=
  let errors := (n.services handle).exitErrors
  (errors.foldl (fun n call => n.pushError handle call) n).modify handle fun s =>
    { s with
      life := .exited
      forkQueue := []
      unresponse := []
      running := none
      status := Function.update s.status co .stopped }

/-- `skynet.timeout`. -/
def timeout (n : Node α) (handle : Handle) : Node α :=
  let session := (n.services handle).sessionId + 1
  { n with timers := n.timers ++ [(handle, session)] }.modify handle fun s =>
    (s.newsession.coCreate none (.timeout session)).setWaiter session (some (.co s.nextCo))

/-- `skynet.start`, of a service that is new. -/
def launch (n : Node α) (handle : Handle) : Node α :=
  (n.modify handle fun s => { s with life := .alive }).timeout handle

/-- What the coroutine that runs does, with what `suspend` does for it. -/
def act (n : Node α) (handle : Handle) (co : Co) : Act α → Node α
  | .send dest known value => n.push dest ⟨handle, if known then .lua else .unknown, 0, some value⟩
  | .call dest known large value =>
      if large then n
      else
        let session := (n.services handle).sessionId + 1
        let n := n.modify handle Service.newsession
        if (n.services dest).alive then
          ((n.push dest ⟨handle, if known then .lua else .unknown, session, some value⟩).modify
              handle fun s =>
            ({ s with watchingSession := Function.update s.watchingSession session (some dest)
              }.setWaiter session
              (some (.co co))).yield co (.calling session)).note
                (.called (handle, session) co dest value)
        else n
  | .sleep =>
      let session := (n.services handle).sessionId + 1
      { n with timers := n.timers ++ [(handle, session)] }.modify handle fun s =>
        ({ s.newsession with sleepSession := Function.update s.sleepSession co (some session)
          }.setWaiter session
          (some (.co co))).yield co (.sleeping session)
  | .timeout => n.timeout handle
  | .wait =>
      let session := (n.services handle).sessionId + 1
      n.modify handle fun s =>
        ({ s.newsession with sleepSession := Function.update s.sleepSession co (some session)
          }.setWaiter session
          (some (.co co))).yield co (.waiting session)
  | .wakeup other =>
      n.modify handle fun s =>
        if (s.sleepSession other).isSome then { s with wakeupQueue := s.wakeupQueue ++ [other] }
          else s
  | .fork => n.modify handle fun s => { s.coCreate none .ready with forkQueue := s.forkQueue ++
        [s.nextCo] }
  | .ret value large =>
      let s := n.services handle
      if s.sessionCoroutineId co = some 0 then n
      else if s.sessionResponse co then n.modify handle fun s => s.fail co
      else
        let n := n.modify handle fun s => s.setResponse co
        match s.request co with
        | some call => if s.deadService call.1 then n else n.answer handle call large value
        | none => n.modify handle fun s => s.fail co
  | .response =>
      let s := n.services handle
      match s.request co with
      | some call =>
          if s.sessionResponse co then n.modify handle fun s => s.fail co
          else
            n.modify handle fun s => { s.setResponse co with unresponse := s.unresponse ++ [call] }
      | none => n.modify handle fun s => s.fail co
  | .respond call ok large value =>
      let s := n.services handle
      if call ∈ s.unresponse then
        let n := n.modify handle fun s => { s with unresponse := s.unresponse.erase call }
        if call.2 ≠ 0 ∧ s.deadService call.1 = false then
          if ok then n.answer handle call large value else n.pushError handle call
        else n
      else n
  | .exit => n.exit handle co
  | .finish =>
      let s := n.services handle
      let n := n.modify handle fun s => (s.clear co).yield co .stopped
      match s.request co with
      | some call => if s.sessionResponse co ∨ call.2 = 0 then n else n.note (.forgot call handle)
      | none => n
  | .raise =>
      let s := n.services handle
      let n := n.modify handle fun s => (s.clear co).fail co
      match s.request co with
      | some call => if call.2 = 0 then n else n.pushError handle call
      | none => n

/-- Messages are taken one at a time, when nothing of the one before is left to do. -/
def step (n : Node α) : Event α → Node α
  | .launch handle =>
      match (n.services handle).life, (n.services handle).sessionId with
      | .unborn, 0 => n.launch handle
      | _, _ => n
  | .deliver handle =>
      let s := n.services handle
      match s.running, s.work, s.forkQueue, s.queue with
      | none, [], [], message :: queue =>
          (n.modify handle fun s => { s with queue }).rawDispatchMessage handle message
      | _, _, _, _ => n
  | .work handle =>
      match (n.services handle).running, (n.services handle).work with
      | none, .wakeup :: work => (n.modify handle fun s => { s with work }).dispatchWakeup handle
      | none, .errors :: work =>
          (n.modify handle fun s => { s with work }).dispatchErrorQueue handle
      | _, _ => n
  | .fork handle i =>
      match (n.services handle).running, (n.services handle).work,
          (n.services handle).forkQueue[i]? with
      | none, [], some co =>
          (n.modify handle fun s => { s with forkQueue := s.forkQueue.eraseIdx i }).resume
            handle co none
      | _, _, _ => n
  | .act handle a =>
      match (n.services handle).running with
      | some co => n.act handle co a
      | none => n
  | .expire i =>
      match n.timers[i]? with
      | some call =>
          { n with timers := n.timers.eraseIdx i }.push call.1 ⟨0, .response, call.2, none⟩
      | none => n
  | .drop handle =>
      match (n.services handle).life, (n.services handle).queue with
      | .exited, message :: queue =>
          (n.modify handle fun s => { s with queue }).pushError handle (message.source, 0)
      | _, _ => n

end Model

end Node

/-- No service has started. -/
def start (α : Type) : Node α where
  services _ := {}

def run {α : Type} (events : List (Event α)) : Node α := Run.exec Node.step (start α) events

end SdyServer.Rpc
