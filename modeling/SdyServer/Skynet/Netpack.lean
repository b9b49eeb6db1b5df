import SdyServer.Lib.Framing
import SdyServer.Lib.RingBuffer

/-!
# The packages of a connection

A package is its size in two bytes, the high one first, and as many bytes. What the socket server
reads off a connection ends anywhere: the packages that are complete go to the gate, and the
beginning of one that is not is kept in a hash table until its rest comes. A message that completes
one package is answered at once; one that completes more puts all of them in a queue first.
-/

namespace SdyServer.Netpack

abbrev Fd := Nat

/-- `struct netpack`. -/
structure Pack where
  id : Fd
  size : Nat
  buffer : List UInt8
deriving DecidableEq, Repr

instance : Inhabited Pack := ⟨⟨0, 0, []⟩⟩

/-- `struct uncomplete`: of the buffer only the part that is filled, `read` is -1 when the package
has just its first byte, which is in `header`. -/
structure Uncomplete where
  id : Fd
  size : Nat := 0
  buffer : List UInt8 := []
  read : Int := 0
  header : Nat := 0
deriving DecidableEq, Repr

/-- `struct queue`: the packages that wait in a ring, and the chains of the hash table. -/
structure Queue where
  ring : RingBuffer Pack
  hash : Nat → List Uncomplete

/-- What `netpack.filter` returns after the queue. -/
inductive Filtered where
  | nothing
  | data (fd : Fd) (buffer : List UInt8) (size : Nat)
  | more
deriving DecidableEq, Repr

def queueSize : Nat := 1024

def hashSize : Nat := 4096

def hashFd (fd : Fd) : Nat := (fd >>> 24 + fd >>> 12 + fd) % 2 ^ 32 % hashSize

def readSize (high low : UInt8) : Nat := high.toNat <<< 8 ||| low.toNat

namespace Queue

section Model

def empty : Queue := { ring :=
      { cap := queueSize, head := 0, tail := 0, cells := fun _ => default }, hash := fun _ => [] }

/-- `get_queue`. -/
def getQueue (q : Option Queue) : Queue := q.getD empty

/-- `find_uncomplete` takes what it finds out of its chain. -/
def findUncomplete (q : Option Queue) (fd : Fd) : Option (Uncomplete × Queue) :=
  q.bind fun q => ((q.hash (hashFd fd)).find? fun uc => uc.id = fd).map fun uc =>
    (uc, { q with hash :=
      Function.update q.hash (hashFd fd) ((q.hash (hashFd fd)).eraseP fun uc => uc.id = fd) })

/-- `uc` at the front of its chain, as `save_uncomplete` puts it there. -/
def saveUncomplete (q : Queue) (uc : Uncomplete) : Queue :=
  { q with hash := Function.update q.hash (hashFd uc.id) (uc :: q.hash (hashFd uc.id)) }

/-- `push_data`. A queue that is full gets more room. -/
def pushData (q : Queue) (fd : Fd) (buffer : List UInt8) (size : Nat) : Queue :=
  { q with ring := q.ring.push (· + queueSize) { id := fd, size, buffer } }

/-- `netpack.pop`. -/
def pop (q : Option Queue) : Option (Pack × Option Queue) :=
  q.bind fun q => q.ring.pop.map fun (np, ring) => (np, some { q with ring })

/-- `push_more`, which is never called without data. -/
def pushMore (q : Queue) (fd : Fd) : List UInt8 → Queue
  | [] => q
  | [byte] => q.saveUncomplete { id := fd, read := -1, header := byte.toNat }
  | high :: low :: buffer =>
      let packSize := readSize high low
      if buffer.length < packSize then
        q.saveUncomplete { id := fd, read := buffer.length, size := packSize, buffer }
      else
        let q := q.pushData fd (buffer.take packSize) packSize
        if buffer.drop packSize ≠ [] then pushMore q fd (buffer.drop packSize) else q
termination_by buffer => buffer.length
decreasing_by
  rw [List.length_drop, List.length_cons, List.length_cons]
  omega

/-- The end of `filter_data_` for a package that was uncomplete, once its size is known. -/
def fillUncomplete (q : Queue) (uc : Uncomplete) (fd : Fd) (buffer : List UInt8) :
    Queue × Filtered :=
  let need := (uc.size : Int) - uc.read
  if (buffer.length : Int) < need then
    (q.saveUncomplete { uc with buffer := uc.buffer ++ buffer, read := uc.read + buffer.length },
      .nothing)
  else
    let filled := uc.buffer ++ buffer.take need.toNat
    let buffer := buffer.drop need.toNat
    if buffer = [] then (q, .data fd filled uc.size)
    else ((q.pushData fd filled uc.size).pushMore fd buffer, .more)

/-- `filter_data_`. There is no result where an assertion fails or where it reads past the
message. -/
def filterData (q : Option Queue) (fd : Fd) (buffer : List UInt8) :
    Option (Option Queue × Filtered) :=
  match findUncomplete q fd with
  | some (uc, q) =>
      if uc.read < 0 then
        if uc.read = -1 then
          match buffer with
          | [] => none
          | byte :: buffer =>
              let packSize := byte.toNat ||| uc.header <<< 8
              let (q, filtered) :=
                fillUncomplete q { uc with size := packSize, buffer := [], read := 0 } fd buffer
              some (some q, filtered)
        else none
      else
        let (q, filtered) := fillUncomplete q uc fd buffer
        some (some q, filtered)
  | none =>
      match buffer with
      | [] => none
      | [byte] => some (some
            ((getQueue q).saveUncomplete { id := fd, read := -1, header := byte.toNat }), .nothing)
      | high :: low :: buffer =>
          let packSize := readSize high low
          if buffer.length < packSize then
            some (some ((getQueue q).saveUncomplete
              { id := fd, read := buffer.length, size := packSize, buffer }), .nothing)
          else if buffer.length = packSize then some (q, .data fd buffer packSize)
          else
            let q := (getQueue q).pushData fd (buffer.take packSize) packSize
            some (some (q.pushMore fd (buffer.drop packSize)), .more)

/-- `close_uncomplete`. -/
def closeUncomplete (q : Option Queue) (fd : Fd) : Option Queue :=
  match findUncomplete q fd with
  | some (_, q) => some q
  | none => q

end Model

end Queue

end SdyServer.Netpack
