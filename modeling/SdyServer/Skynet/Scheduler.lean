import Mathlib.Logic.Function.Basic
import SdyServer.Lib.RingBuffer
import SdyServer.Lib.Run

/-!
# The scheduler

A service is a context with a queue of messages. The queues that have something in them are linked
in a global list, from which the worker threads take them. Any thread may send, retire a service or
let go of a context at any time: one event is what a thread does under one lock.
-/

namespace SdyServer.Scheduler

abbrev Handle := Nat

abbrev Worker := Nat

structure Message where
  source : Handle
  session : Int
  type : Nat
  data : List UInt8
deriving DecidableEq, Repr

instance : Inhabited Message := ⟨{ source := 0, session := 0, type := 0, data := [] }⟩

abbrev defaultQueueSize : Nat := 64
abbrev mqOverload : Nat := 1024
abbrev ptypeError : Nat := 7

structure MessageQueue where
  ring : RingBuffer Message :=
    { cap := defaultQueueSize, head := 0, tail := 0, cells := fun _ => default }
  release : Bool := false
  inGlobal : Bool := true
  overload : Nat := 0
  overloadThreshold : Nat := mqOverload

namespace MessageQueue

section Model

/-- The loop of `skynet_mq_pop`, which ends before the threshold has been raised `length` times. -/
def raise (length : Nat) : Nat → MessageQueue → MessageQueue
  | 0, q => q
  | n + 1, q =>
      if q.overloadThreshold < length then
        raise length n { q with overload := length, overloadThreshold := q.overloadThreshold * 2 }
      else q

/-- `skynet_mq_pop`. -/
def pop (q : MessageQueue) : Option Message × MessageQueue :=
  match q.ring.pop with
  | some (message, ring) => (some message, { q with ring }.raise ring.length ring.length)
  | none => (none, { q with overloadThreshold := mqOverload, inGlobal := false })

/-- `skynet_mq_push`, up to the link. -/
def push (q : MessageQueue) (message : Message) : MessageQueue :=
  { q with ring := q.ring.push (· * 2) message, inGlobal := true }

end Model

end MessageQueue

/-- Where `skynet_context_new` is: in the `init` of the module; with its reference given back; on
its way out when `init` has failed. -/
inductive Starting where
  | no
  | init
  | launched
  | failed
  | retiring
  | retired
  | dropping
deriving DecidableEq, Repr

/-- Where a worker is in `skynet_context_message_dispatch`: at its head, maybe with a queue; giving
up a queue whose context is gone; before, in and after its loop over the messages; and with the next
queue, before and after it has linked its own again. -/
inductive Phase where
  | top (q : Option Handle)
  | releasing (q : Handle)
  | dropping (q : Handle)
  | ready (q : Handle) (i n : Nat)
  | measuring (q : Handle)
  | handling (q : Handle) (i n : Nat)
  | emptied (q : Handle)
  | finished (q : Handle)
  | pushing (q nq : Handle)
  | leaving (q next : Handle)
deriving DecidableEq, Repr

/-- The queues by the handles of their contexts, the contexts that the handle table has and how
often each is referred to, the global list, and where every thread is: `sends` are those between
`skynet_handle_grab` and `skynet_mq_push`, `releases` those before a `skynet_context_release`. Then
what has happened to the messages of each service, and whether an assertion has failed, a list was
broken or a queue used that had been freed. -/
structure Node where
  weight : Worker → Int
  queue : Handle → Option MessageQueue := fun _ => none
  created : Handle → Bool := fun _ => false
  registered : Handle → Bool := fun _ => false
  ref : Handle → Nat := fun _ => 0
  global : List Handle := []
  starting : Handle → Starting := fun _ => .no
  workers : Worker → Phase := fun _ => .top none
  sends : List (Handle × Message) := []
  releases : List Handle := []
  pushed : Handle → List Message := fun _ => []
  taken : Handle → List Message := fun _ => []
  dropped : Handle → List Message := fun _ => []
  overloads : List (Handle × Nat) := []
  failed : Bool := false

/-- What a thread can do next. A new context gets a handle that was not used before. -/
inductive Event where
  | create (handle : Handle)
  | start (handle : Handle) (ok : Bool)
  | send (destination : Handle) (message : Message)
  | push (i : Nat)
  | release (i : Nat)
  | retire (handle : Handle)
  | work (worker : Worker)
deriving DecidableEq, Repr

namespace Node

section Model

def fail (s : Node) : Node := { s with failed := true }

def setQueue (s : Node) (h : Handle) (q : Option MessageQueue) : Node :=
  { s with queue := Function.update s.queue h q }

def goto (s : Node) (worker : Worker) (phase : Phase) : Node :=
  { s with workers := Function.update s.workers worker phase }

def setStarting (s : Node) (h : Handle) (starting : Starting) : Node :=
  { s with starting := Function.update s.starting h starting }

/-- `skynet_globalmq_push`. A queue that is linked already would break the list. -/
def globalmqPush (s : Node) (h : Handle) : Node :=
  if h ∈ s.global then s.fail else { s with global := s.global ++ [h] }

/-- `skynet_mq_mark_release`. -/
def mqMarkRelease (s : Node) (h : Handle) : Node :=
  match s.queue h with
  | none => s.fail
  | some q =>
      if q.release then s.fail
      else
        let s := s.setQueue h (some { q with release := true })
        if q.inGlobal then s else s.globalmqPush h

/-- `skynet_context_release`, with `delete_context`. -/
def contextRelease (s : Node) (h : Handle) : Node :=
  let s := { s with ref := Function.update s.ref h (s.ref h - 1) }
  if s.ref h = 0 then s.mqMarkRelease h else s

/-- `skynet_handle_grab` of a sender. -/
def grab (s : Node) (destination : Handle) (message : Message) : Node :=
  if s.registered destination then
    { s with
      ref := Function.update s.ref destination (s.ref destination + 1)
      sends := s.sends ++ [(destination, message)] }
  else s

/-- `skynet_mq_push` of a sender, which gives its context back next. -/
def mqPush (s : Node) (h : Handle) (message : Message) : Node :=
  match s.queue h with
  | none => s.fail
  | some q =>
      let s := { s.setQueue h (some (q.push message)) with
        pushed := Function.update s.pushed h (s.pushed h ++ [message])
        releases := s.releases ++ [h] }
      if q.inGlobal then s else s.globalmqPush h

/-- One round of `_drop_queue`, with `drop_message`, which tells the sender. -/
def dropQueue (s : Node) (h : Handle) : Option Node :=
  (s.queue h).bind fun q =>
    match q.pop with
    | (none, _) => none
    | (some message, q) =>
        let s := { s.setQueue h (some q) with dropped := Function.update s.dropped h (s.dropped h ++
          [message]) }
        some (if message.source = 0 then s
          else s.grab message.source { source := h, session := 0, type := ptypeError, data := [] })

/-- `skynet_context_new`, up to `init`. -/
def create (s : Node) (h : Handle) : Node :=
  { s.setQueue h (some {}) with
    created := Function.update s.created h true
    registered := Function.update s.registered h true
    ref := Function.update s.ref h 2
    starting := Function.update s.starting h .init }

/-- The rest of `skynet_context_new`. -/
def start (s : Node) (h : Handle) (ok : Bool) : Node :=
  match s.starting h with
  | .no => s
  | .init => (s.contextRelease h).setStarting h (if ok then .launched else .failed)
  | .launched => (s.globalmqPush h).setStarting h .no
  | .failed =>
      if s.registered h then
        { s with registered := Function.update s.registered h false }.setStarting h .retiring
      else s.setStarting h .retired
  | .retiring => (s.contextRelease h).setStarting h .retired
  | .retired =>
      match s.queue h with
      | none => s.fail
      | some q =>
          if q.release then s.setStarting h .dropping else (s.globalmqPush h).setStarting h .no
  | .dropping =>
      match s.dropQueue h with
      | some s => s
      | none => (s.setQueue h none).setStarting h .no

/-- `skynet_globalmq_pop` of a worker. -/
def globalmqPop (s : Node) (worker : Worker) (phase : Option Handle → Phase) : Node :=
  match s.global with
  | [] => s.goto worker (phase none)
  | h :: global => { s with global }.goto worker (phase (some h))

/-- A message that has been taken: how many come after it is told by the length of the queue when it
is the first. -/
def take (s : Node) (worker : Worker) (h : Handle) (i n : Nat) : Node :=
  match s.queue h with
  | none => s.fail
  | some q =>
      match q.pop with
      | (none, q) => (s.setQueue h (some q)).goto worker (.emptied h)
      | (some message, q) =>
          let s := { s.setQueue h (some q) with taken := Function.update s.taken h (s.taken h ++
            [message]) }
          s.goto worker (if i = 0 ∧ 0 ≤ s.weight worker then .measuring h else .handling h i n)

/-- What a worker does next. -/
def work (s : Node) (worker : Worker) : Node :=
  match s.workers worker with
  | .top none => s.globalmqPop worker .top
  | .top (some h) =>
      if s.registered h then { s with ref := Function.update s.ref h (s.ref h + 1) }.goto worker
        (.ready h 0 1)
      else s.goto worker (.releasing h)
  | .releasing h =>
      match s.queue h with
      | none => s.fail
      | some q =>
          if q.release then s.goto worker (.dropping h)
          else (s.globalmqPush h).goto worker (.top none)
  | .dropping h =>
      match s.dropQueue h with
      | some s => s
      | none => (s.setQueue h none).goto worker (.top none)
  | .ready h i n => if i < n then s.take worker h i n else s.goto worker (.finished h)
  | .measuring h =>
      match s.queue h with
      | none => s.fail
      | some q => s.goto worker (.handling h 0 (q.ring.length >>> (s.weight worker).toNat))
  | .handling h i n =>
      -- `skynet_mq_overload`, and the callback of the service, whose sends are events of their own
      match s.queue h with
      | none => s.fail
      | some q =>
          let s :=
            if q.overload = 0 then s
            else { s.setQueue h (some { q with overload := 0 }) with overloads := s.overloads ++
              [(h, q.overload)] }
          s.goto worker (.ready h (i + 1) n)
  | .emptied h => (s.contextRelease h).goto worker (.top none)
  | .finished h => s.globalmqPop worker fun next => next.elim (.leaving h h) (.pushing h)
  | .pushing h nq => (s.globalmqPush h).goto worker (.leaving h nq)
  | .leaving h next => (s.contextRelease h).goto worker (.top (some next))

/-- `skynet_handle_retire`, up to the release. -/
def retire (s : Node) (h : Handle) : Node :=
  if s.registered h then
    { s with registered := Function.update s.registered h false, releases := s.releases ++ [h] }
  else s

def step (s : Node) : Event → Node
  | .create h => if s.created h then s else s.create h
  | .start h ok => s.start h ok
  | .send destination message => s.grab destination message
  | .push i =>
      match s.sends[i]? with
      | none => s
      | some (h, message) => { s with sends := s.sends.eraseIdx i }.mqPush h message
  | .release i =>
      match s.releases[i]? with
      | none => s
      | some h => { s with releases := s.releases.eraseIdx i }.contextRelease h
  | .retire h => s.retire h
  | .work worker => s.work worker

end Model

end Node

def run (weight : Worker → Int) (events : List Event) : Node := Run.exec Node.step { weight } events

end SdyServer.Scheduler
