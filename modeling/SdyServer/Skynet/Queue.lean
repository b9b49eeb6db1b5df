import Mathlib.Logic.Function.Basic
import SdyServer.Lib.Run

/-!
# The critical section

The coroutines of a service take turns at any call that waits. A service that must not be
interrupted runs its commands through a function of `skynet.queue`: a coroutine that is inside may
go in again, and the others sleep until it has left as often as it went in. The state that the
commands are about is a parameter.
-/

namespace SdyServer.CriticalSection

abbrev Thread := Nat

/-- What can be seen of the coroutines: `arrived`, `entered` and `left` are those of the outermost
call. -/
inductive Happened (α : Type) where
  | arrived (thread : Thread)
  | entered (thread : Thread)
  | did (thread : Thread) (act : α)
  | left (thread : Thread)
  | returned (thread : Thread) (ok : Bool)
deriving DecidableEq, Repr

/-- The upvalues of the function; the sleeping coroutines of the service and those to be woken, how
deep each coroutine is inside, and the state that the bodies work on. -/
structure Cs (σ α : Type) where
  currentThread : Option Thread := none
  ref : Int := 0
  threadQueue : List Thread := []
  sleeping : Thread → Bool := fun _ => false
  wakeupQueue : List Thread := []
  depth : Thread → Nat := fun _ => 0
  failed : Bool := false
  shared : σ
  trace : List (Happened α) := []

/-- A coroutine calls the function, works in the body, or leaves the innermost one, where `ok` says
that it has not raised; the service goes on with the next coroutine to be woken. -/
inductive Event (α : Type) where
  | call (thread : Thread)
  | work (thread : Thread) (act : α)
  | ret (thread : Thread) (ok : Bool)
  | dispatchWakeup
deriving DecidableEq, Repr

namespace Cs

variable {σ α : Type}

section Model

def note (s : Cs σ α) (happened : Happened α) : Cs σ α := { s with trace := s.trace ++ [happened] }

/-- What the function does once it is the turn of the coroutine. -/
def enter (s : Cs σ α) (thread : Thread) : Cs σ α :=
  let s := if s.depth thread = 0 then s.note (.entered thread) else s
  { s with
    currentThread := some thread
    ref := s.ref + 1
    depth := Function.update s.depth thread (s.depth thread + 1) }

/-- `skynet.wait`. -/
def wait (s : Cs σ α) (thread : Thread) : Cs σ α :=
  { s with sleeping := Function.update s.sleeping thread true }

/-- `skynet.wakeup`. -/
def wakeup (s : Cs σ α) (thread : Thread) : Cs σ α :=
  if s.sleeping thread then { s with wakeupQueue := s.wakeupQueue ++ [thread] } else s

/-- The function that `skynet.queue` returns. -/
def call (s : Cs σ α) (thread : Thread) : Cs σ α :=
  let s := if s.depth thread = 0 then s.note (.arrived thread) else s
  if s.currentThread ≠ none ∧ s.currentThread ≠ some thread then
    { s with threadQueue := s.threadQueue ++ [thread] }.wait thread
  else s.enter thread

/-- `xpcall_ret`. -/
def xpcallRet (s : Cs σ α) (thread : Thread) (ok : Bool) : Cs σ α :=
  let s := { s with ref := s.ref - 1, depth := Function.update s.depth thread (s.depth thread - 1) }
  let s := if s.depth thread = 0 then s.note (.left thread) else s
  let s :=
    if s.ref = 0 then
      match s.threadQueue with
      | [] => { s with currentThread := none }
      | next :: threadQueue => { s with currentThread := some next, threadQueue }.wakeup next
    else s
  s.note (.returned thread ok)

/-- `dispatch_wakeup`; what comes after `skynet.wait` asserts that nobody is inside. -/
def dispatchWakeup (s : Cs σ α) : Cs σ α :=
  match s.wakeupQueue with
  | [] => s
  | thread :: wakeupQueue =>
      let s := { s with wakeupQueue }
      if s.sleeping thread then
        let s := { s with sleeping := Function.update s.sleeping thread false }
        if s.ref = 0 then s.enter thread else { s with failed := true }
      else s

/-- A coroutine that sleeps does nothing, and one that is not inside has no body to work in. -/
def step (act : σ → α → σ) (s : Cs σ α) : Event α → Cs σ α
  | .call thread => if s.sleeping thread then s else s.call thread
  | .work thread a =>
      if s.sleeping thread ∨ s.depth thread = 0 then s
      else { s with shared := act s.shared a }.note (.did thread a)
  | .ret thread ok => if s.sleeping thread ∨ s.depth thread = 0 then s else s.xpcallRet thread ok
  | .dispatchWakeup => s.dispatchWakeup

end Model

end Cs

def run {σ α : Type} (act : σ → α → σ) (shared : σ) (events : List (Event α)) : Cs σ α :=
  Run.exec (Cs.step act) { shared } events

end SdyServer.CriticalSection
