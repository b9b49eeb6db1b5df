import SdyServer.Lib.Run
import SdyServer.Skynet.NetpackExact

/-!
# The gate

The gate hands every package of a connection to the agent that the connection is forwarded to, or to
the watchdog. Connections come, close and fail at any time, and the packages that one message of the
socket server completes wait in the ring until the loop that takes them out has sent them all.
-/

namespace SdyServer.ServerGate

open Netpack

abbrev Address := Nat

/-- An entry of the handler's `connection`. -/
structure Connection where
  ip : List UInt8
  agent : Option Address := none
  client : Option Address := none
deriving DecidableEq, Repr

/-- What the gate sends: packages to an agent or to the watchdog, the other events of a connection
to the watchdog, packages of a connection that is not open to the log, and its calls of the socket
server. -/
inductive Sent where
  | agent (agent : Address) (fd : Fd) (msg : List UInt8) (sz : Nat) (ip : List UInt8)
  | data (fd : Fd) (msg : List UInt8)
  | opened (fd : Fd) (addr : List UInt8)
  | closed (fd : Fd)
  | failed (fd : Fd) (msg : List UInt8)
  | warning (fd : Fd) (size : Nat)
  | dropped (fd : Fd) (msg : List UInt8)
  | start (fd : Fd)
  | shut (fd : Fd)
deriving DecidableEq, Repr

/-- What comes from the socket server; the turn of a coroutine that `dispatch_queue` forked; the
commands, `kick` also for the connections that the timer finds idle. -/
inductive Event where
  | data (fd : Fd) (buffer : List UInt8)
  | connect (fd : Fd)
  | close (fd : Fd)
  | accept (fd : Fd) (addr : List UInt8)
  | error (fd : Fd) (msg : List UInt8)
  | warning (fd : Fd) (size : Nat)
  | fork
  | forward (source : Address) (fd : Fd) (client address : Option Address)
  | acceptClient (fd : Fd)
  | kick (fd : Fd)
deriving DecidableEq, Repr

/-- The listening socket, the counts and the two tables of connections, and what has been sent. -/
structure Front where
  socket : Option Fd
  maxclient : Nat
  clientNumber : Nat := 0
  connection : Fd → Option Bool := fun _ => none
  conns : Fd → Option Connection := fun _ => none
  forwarding : Address → Option Fd := fun _ => none
  log : List Sent := []

namespace Front

section Model

def send (g : Front) (sent : Sent) : Front := { g with log := g.log ++ [sent] }

/-- `gateserver.openclient`. -/
def openclient (g : Front) (fd : Fd) : Front :=
  if g.connection fd = some true then g.send (.start fd) else g

/-- `gateserver.closeclient`. -/
def closeclient (g : Front) (fd : Fd) : Front :=
  if g.connection fd = some true then
    { g with connection := Function.update g.connection fd (some false) }.send (.shut fd)
  else g

/-- `handler.message`, which raises for a connection it does not know. -/
def message (g : Front) (fd : Fd) (msg : List UInt8) (sz : Nat) : Option Front :=
  (g.conns fd).map fun c =>
    match c.agent with
    | some agent => g.send (.agent agent fd (msg.take sz) sz c.ip)
    | none => g.send (.data fd (msg.take sz))

/-- `dispatch_msg`. -/
def dispatchMsg (g : Front) (fd : Fd) (msg : List UInt8) (sz : Nat) : Option Front :=
  if g.connection fd =
    some true then g.message fd msg sz else some (g.send (.dropped fd (msg.take sz)))

/-- `unforward` of the entry of `fd`. -/
def unforward (g : Front) (fd : Fd) (c : Connection) : Front :=
  match c.agent with
  | none => g
  | some agent =>
      { g with
        forwarding := Function.update g.forwarding agent none
        conns := Function.update g.conns fd (some { c with agent := none, client := none }) }

/-- `close_fd` of the handler. -/
def handlerClose (g : Front) (fd : Fd) : Front :=
  match g.conns fd with
  | none => g
  | some c =>
      let g := g.unforward fd c
      { g with conns := Function.update g.conns fd none }

/-- `close_fd` of the gate server. -/
def closeFd (g : Front) (fd : Fd) : Front :=
  match g.connection fd with
  | none => g
  | some _ =>
      { g with connection := Function.update g.connection fd none, clientNumber :=
        g.clientNumber - 1 }

/-- `MSG.open`. -/
def opened (g : Front) (fd : Fd) (addr : List UInt8) : Front :=
  if g.maxclient ≤ g.clientNumber then g.send (.shut fd)
  else
    { g with
      connection := Function.update g.connection fd (some true)
      clientNumber := g.clientNumber + 1
      conns := Function.update g.conns fd (some { ip := addr }) }.send (.opened fd addr)

/-- `MSG.close`. -/
def closed (g : Front) (fd : Fd) : Front :=
  if g.socket ≠ some fd then ((g.handlerClose fd).send (.closed fd)).closeFd fd else
    { g with socket := none }

/-- `MSG.error`. -/
def failed (g : Front) (fd : Fd) (msg : List UInt8) : Front :=
  if g.socket =
    some fd then g.send (.shut fd) else ((g.handlerClose fd).send (.failed fd msg)).closeFd fd

/-- `CMD.forward`, which raises for a connection it does not know. -/
def forward (g : Front) (source : Address) (fd : Fd) (client address : Option Address) : Front :=
  match g.conns fd with
  | none => g
  | some c =>
      let g := g.unforward fd c
      { g with
        conns := Function.update g.conns fd
          (some { c with client := some (client.getD 0), agent := some (address.getD source) })
        forwarding := Function.update g.forwarding (address.getD source) (some fd) }.openclient fd

/-- `CMD.accept`. -/
def acceptClient (g : Front) (fd : Fd) : Front :=
  match g.conns fd with
  | none => g
  | some c => (g.unforward fd c).openclient fd

end Model

end Front

/-- The gate: its tables, the queue of the filter, and how many loops over the queue were forked. -/
structure Gate where
  front : Front
  queue : Option Queue := none
  forks : Nat := 0

namespace Gate

section Model

/-- The loop of `dispatch_queue`, for at most as many packages as there can be. -/
def drain : Nat → Gate → Gate
  | 0, g => g
  | n + 1, g =>
      match Queue.pop g.queue with
      | none => g
      | some (np, queue) =>
          match g.front.dispatchMsg np.id np.buffer np.size with
          | none => { g with queue }
          | some front => drain n { g with front, queue }

/-- `dispatch_queue` forks itself for the case that a handler waits. -/
def dispatchQueue (g : Gate) : Gate :=
  match Queue.pop g.queue with
  | none => g
  | some _ => drain (Queue.getQueue g.queue).ring.length { g with forks := g.forks + 1 }

/-- A message of the socket server with data. -/
def receive (g : Gate) (fd : Fd) (buffer : List UInt8) : Gate :=
  match Queue.filterData g.queue fd buffer with
  | none => g
  | some (queue, .nothing) => { g with queue }
  | some (queue, .data fd msg sz) =>
      { g with queue, front := (g.front.dispatchMsg fd msg sz).getD g.front }
  | some (queue, .more) => dispatchQueue { g with queue }

def step (g : Gate) : Event → Gate
  | .data fd buffer => g.receive fd buffer
  | .connect _ => g
  | .close fd => { g with queue := Queue.closeUncomplete g.queue fd, front := g.front.closed fd }
  | .accept fd addr => { g with front := g.front.opened fd addr }
  | .error fd msg =>
      { g with queue := Queue.closeUncomplete g.queue fd, front := g.front.failed fd msg }
  | .warning fd size => { g with front := g.front.send (.warning fd size) }
  | .fork => if g.forks = 0 then g else dispatchQueue { g with forks := g.forks - 1 }
  | .forward source fd client address =>
      { g with front := g.front.forward source fd client address }
  | .acceptClient fd => { g with front := g.front.acceptClient fd }
  | .kick fd => { g with front := g.front.closeclient fd }

end Model

end Gate

/-- The gate that listens. -/
def start (listen : Fd) (maxclient : Nat) : Gate :=
  { front := { socket := some listen, maxclient } }

def run (listen : Fd) (maxclient : Nat) (events : List Event) : Gate :=
  Run.exec Gate.step (start listen maxclient) events

/-- `short2Data`, which raises for what two bytes do not hold. -/
def short2Data (short : Nat) : Option (List UInt8) :=
  if short / 256 < 256 then some [UInt8.ofNat (short / 256), UInt8.ofNat (short % 256)] else none

/-- What `send_request` and `send_msg` write for a text. -/
def frame (msg : List UInt8) : Option (List UInt8) := (short2Data msg.length).map (· ++ msg)

end SdyServer.ServerGate
