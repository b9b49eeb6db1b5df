import SdyServer.Lib.Bytes

/-!
# Lua values as bytes

Services send each other Lua values: `skynet.pack` writes them one after the other into a chain of
blocks, each with a byte that tells its type and a cookie, and `skynet.unpack` reads them.
-/

namespace SdyServer.Seri

/-- A table is given by what `lua_rawgeti` gives from 1 to `lua_rawlen`, and by what `lua_next`
gives. -/
inductive Value where
  | nil
  | boolean (b : Bool)
  | integer (i : Int)
  | number (bits : UInt64)
  | pointer (p : UInt64)
  | string (str : List UInt8)
  | table (array : List Value) (next : List (Value × Value))
  | unsupported (typename : String)
deriving Repr

abbrev typeNil : Nat := 0
abbrev typeBoolean : Nat := 1
abbrev typeNumber : Nat := 2
abbrev typeNumberZero : Nat := 0
abbrev typeNumberByte : Nat := 1
abbrev typeNumberWord : Nat := 2
abbrev typeNumberDword : Nat := 4
abbrev typeNumberQword : Nat := 6
abbrev typeNumberReal : Nat := 8
abbrev typeUserdata : Nat := 3
abbrev typeShortString : Nat := 4
abbrev typeLongString : Nat := 5
abbrev typeTable : Nat := 6
abbrev maxCookie : Nat := 32
abbrev blockSize : Nat := 128
abbrev maxDepth : Nat := 32

def combineType (t v : Nat) : UInt8 := UInt8.ofNat (t ||| v <<< 3)

/-- The blocks that are full, and the one that is written to. -/
structure WriteBlock where
  full : List (List UInt8) := []
  current : List UInt8 := []
  len : Nat := 0
  hfull : ∀ block ∈ full, block.length = blockSize := by simp
  hcurrent : current.length ≤ blockSize := by simp
  hlen : len = full.length * blockSize + current.length := by simp

namespace WriteBlock

section Model

/-- A new block when the present one is full. -/
def room (b : WriteBlock) : WriteBlock :=
  if h : b.current.length = blockSize then
    { full := b.full ++ [b.current]
      current := []
      len := b.len
      hfull := by
        intro block hblock
        rcases List.mem_append.mp hblock with hblock | hblock
        · exact b.hfull block hblock
        · rw [List.mem_singleton.mp hblock, h]
      hcurrent := Nat.zero_le _
      hlen := by
        rw [b.hlen, h, List.length_append, List.length_singleton, List.length_nil, Nat.add_mul,
          Nat.one_mul,
          Nat.add_zero] }
  else b

/-- What has room in the present block. -/
def write (b : WriteBlock) (buf : List UInt8) (h : b.current.length + buf.length ≤ blockSize) :
    WriteBlock where
  full := b.full
  current := b.current ++ buf
  len := b.len + buf.length
  hfull := b.hfull
  hcurrent := by rwa [List.length_append]
  hlen := by
    rw [b.hlen, List.length_append]
    omega

theorem room_current (b : WriteBlock) : b.room.current.length < blockSize := by
  unfold room
  split_ifs with h
  · exact Nat.zero_lt_succ 127
  · exact Nat.lt_of_le_of_ne b.hcurrent h

theorem length_take_copy (b : WriteBlock) (buf : List UInt8) :
    b.current.length + (buf.take (blockSize - b.current.length)).length ≤ blockSize := by
  have hcurrent := b.hcurrent
  rw [List.length_take]
  exact (Nat.add_le_add_left (Nat.min_le_left _ _) _).trans (Nat.add_sub_of_le hcurrent).le

/-- `wb_push`. -/
def push (b : WriteBlock) (buf : List UInt8) : WriteBlock :=
  if h : b.room.current.length + buf.length ≤ blockSize then b.room.write buf h
  else
    let copy := blockSize - b.room.current.length
    push (b.room.write (buf.take copy) (b.room.length_take_copy buf)) (buf.drop copy)
termination_by buf.length
decreasing_by
  have hroom := b.room_current
  rw [List.length_drop]
  exact Nat.sub_lt (by omega) (Nat.sub_pos_of_lt hroom)

def wbNil (b : WriteBlock) : WriteBlock := b.push [UInt8.ofNat typeNil]

def wbBoolean (b : WriteBlock) (boolean : Bool) : WriteBlock :=
  b.push [combineType typeBoolean (if boolean then 1 else 0)]

/-- What C keeps of an integer in `n` bytes. -/
def intBytes (n : Nat) (v : Int) : List UInt8 := Bytes.ofNatLe n (v % 256 ^ n).toNat

def wbInteger (b : WriteBlock) (v : Int) : WriteBlock :=
  if v = 0 then b.push [combineType typeNumber typeNumberZero]
  else if v < -2147483648 ∨ 2147483648 ≤ v then
    (b.push [combineType typeNumber typeNumberQword]).push (intBytes 8 v)
  else if v < 0 then (b.push [combineType typeNumber typeNumberDword]).push (intBytes 4 v)
  else if v < 0x100 then (b.push [combineType typeNumber typeNumberByte]).push (intBytes 1 v)
  else if v < 0x10000 then (b.push [combineType typeNumber typeNumberWord]).push (intBytes 2 v)
  else (b.push [combineType typeNumber typeNumberDword]).push (intBytes 4 v)

def wbReal (b : WriteBlock) (v : UInt64) : WriteBlock :=
  (b.push [combineType typeNumber typeNumberReal]).push (Bytes.ofNatLe 8 v.toNat)

def wbPointer (b : WriteBlock) (v : UInt64) : WriteBlock :=
  (b.push [UInt8.ofNat typeUserdata]).push (Bytes.ofNatLe 8 v.toNat)

def wbString (b : WriteBlock) (str : List UInt8) : WriteBlock :=
  if str.length < maxCookie then
    let b := b.push [combineType typeShortString str.length]
    if 0 < str.length then b.push str else b
  else if str.length < 0x10000 then
    ((b.push [combineType typeLongString 2]).push (Bytes.ofNatLe 2 str.length)).push str
  else ((b.push [combineType typeLongString 4]).push (Bytes.ofNatLe 4 str.length)).push str

/-- The head of `wb_table_array`. -/
def wbTableHead (b : WriteBlock) (arraySize : Nat) : WriteBlock :=
  if maxCookie - 1 ≤
    arraySize then (b.push [combineType typeTable (maxCookie - 1)]).wbInteger arraySize
  else b.push [combineType typeTable arraySize]

end Model

end WriteBlock

/-- The keys that `wb_table_hash` passes over: those of the array part. -/
def Value.inArray (arraySize : Nat) : Value → Bool
  | .integer x => 0 < x ∧ x ≤ arraySize
  | _ => false

section Model

open WriteBlock

mutual

def packOne (depth : Nat) (v : Value) (b : WriteBlock) : Except String WriteBlock :=
  if maxDepth < depth then .error "serialize can't pack too depth table"
  else
    match v with
    | .nil => .ok b.wbNil
    | .integer x => .ok (b.wbInteger x)
    | .number n => .ok (b.wbReal n)
    | .boolean x => .ok (b.wbBoolean x)
    | .string str => .ok (b.wbString str)
    | .pointer p => .ok (b.wbPointer p)
    | .table array next => do
        let b ← packArray (depth + 1) array (b.wbTableHead array.length)
        packHash (depth + 1) array.length next b
    | .unsupported typename => .error ("Unsupport type " ++ typename ++ " to serialize")

/-- The loop of `wb_table_array`. -/
def packArray (depth : Nat) (array : List Value) (b : WriteBlock) : Except String WriteBlock :=
  match array with
  | [] => .ok b
  | v :: array => do
      let b ← packOne depth v b
      packArray depth array b

/-- `wb_table_hash`. -/
def packHash (depth arraySize : Nat) (next : List (Value × Value)) (b : WriteBlock) :
    Except String WriteBlock :=
  match next with
  | [] => .ok b.wbNil
  | (key, value) :: next =>
      if key.inArray arraySize then packHash depth arraySize next b
      else do
        let b ← packOne depth key b
        let b ← packOne depth value b
        packHash depth arraySize next b

end

def packFrom : List Value → WriteBlock → Except String WriteBlock
  | [], b => .ok b
  | v :: vs, b => do
      let b ← packOne 0 v b
      packFrom vs b

/-- The loop of `seri`. -/
def seri : List (List UInt8) → Nat → List UInt8
  | [], _ => []
  | block :: blocks, len =>
      if len = 0 then []
      else if blockSize ≤ len then block ++ seri blocks (len - blockSize)
      else block.take len

/-- `luaseri_pack`. -/
def pack (vs : List Value) : Except String (List UInt8) :=
  (packFrom vs {}).map fun b => seri (b.full ++ [b.current]) b.len

/-- `rb_read`: the next bytes and what comes after them. -/
def rbRead (rb : List UInt8) (sz : Nat) : Option (List UInt8 × List UInt8) :=
  if rb.length < sz then none else some (rb.take sz, rb.drop sz)

/-- A signed number of `n` bytes. -/
def toInt (n : Nat) (bytes : List UInt8) : Int :=
  let value := Bytes.toNatLe bytes
  if 2 * value < 256 ^ n then value else (value : Int) - 256 ^ n

def getInteger (rb : List UInt8) (cookie : Nat) : Option (Int × List UInt8) :=
  if cookie = typeNumberZero then some (0, rb)
  else if cookie = typeNumberByte then (rbRead rb 1).map
    fun (bytes, rb) => (↑(Bytes.toNatLe bytes), rb)
  else if cookie = typeNumberWord then (rbRead rb 2).map
    fun (bytes, rb) => (↑(Bytes.toNatLe bytes), rb)
  else if cookie = typeNumberDword then (rbRead rb 4).map fun (bytes, rb) => (toInt 4 bytes, rb)
  else if cookie = typeNumberQword then (rbRead rb 8).map fun (bytes, rb) => (toInt 8 bytes, rb)
  else none

/-- Eight bytes, of a number or of a pointer. -/
def getWord (rb : List UInt8) : Option (UInt64 × List UInt8) :=
  (rbRead rb 8).map fun (bytes, rb) => (UInt64.ofNat (Bytes.toNatLe bytes), rb)

def getBuffer (rb : List UInt8) (len : Nat) : Option (Value × List UInt8) :=
  (rbRead rb len).map fun (bytes, rb) => (.string bytes, rb)

/-- The array size of `unpack_table`. -/
def getArraySize (rb : List UInt8) (arraySize : Nat) : Option (Int × List UInt8) :=
  if arraySize = maxCookie - 1 then
    (rbRead rb 1).bind fun (t, rb) =>
      let type := Bytes.toNatLe t
      if type &&& 7 ≠ typeNumber ∨
        type >>> 3 = typeNumberReal then none else getInteger rb (type >>> 3)
  else some (↑arraySize, rb)

/-- Whether two values are the same key. A table that is read is a new one. -/
def Value.sameKey : Value → Value → Bool
  | .boolean a, .boolean b => a = b
  | .integer a, .integer b => a = b
  | .number a, .number b => a = b
  | .pointer a, .pointer b => a = b
  | .string a, .string b => a = b
  | _, _ => false

def Value.isNil : Value → Bool
  | .nil => true
  | _ => false

/-- `lua_rawset`. -/
def rawset (next : List (Value × Value)) (key value : Value) : List (Value × Value) :=
  if value.isNil then next.filter fun pair => !pair.1.sameKey key
  else if next.any fun pair => pair.1.sameKey key then
    next.map fun pair => if pair.1.sameKey key then (pair.1, value) else pair
  else next ++ [(key, value)]

/-- The calls of `lua_rawseti` for the values of an array. -/
def setArray : Nat → List Value → List (Value × Value) → List (Value × Value)
  | _, [], next => next
  | i, v :: array, next => setArray (i + 1) array (rawset next (.integer i) v)

mutual

/-- The calls that may follow each other are bounded: every value takes a byte. -/
def unpackOne : Nat → List UInt8 → Option (Value × List UInt8)
  | 0, _ => none
  | fuel + 1, rb =>
      (rbRead rb 1).bind fun (t, rb) => pushValue fuel rb (Bytes.toNatLe t &&& 7)
        (Bytes.toNatLe t >>> 3)

def pushValue : Nat → List UInt8 → Nat → Nat → Option (Value × List UInt8)
  | 0, _, _, _ => none
  | fuel + 1, rb, type, cookie =>
      if type = typeNil then some (.nil, rb)
      else if type = typeBoolean then some (.boolean (cookie ≠ 0), rb)
      else if type = typeNumber then
        if cookie = typeNumberReal then (getWord rb).map fun (n, rb) => (.number n, rb)
        else (getInteger rb cookie).map fun (i, rb) => (.integer i, rb)
      else if type = typeUserdata then (getWord rb).map fun (p, rb) => (.pointer p, rb)
      else if type = typeShortString then getBuffer rb cookie
      else if type = typeLongString then
        if cookie = 2 then (rbRead rb 2).bind fun (n, rb) => getBuffer rb (Bytes.toNatLe n)
        else if cookie = 4 then (rbRead rb 4).bind fun (n, rb) => getBuffer rb (Bytes.toNatLe n)
        else none
      else if type = typeTable then
        (getArraySize rb cookie).bind fun (arraySize, rb) =>
          (unpackArray fuel rb arraySize.toNat).bind fun (array, rb) =>
            (unpackHash fuel rb (setArray 1 array [])).map fun (next, rb) => (.table array next, rb)
      else none

/-- The first loop of `unpack_table`. -/
def unpackArray : Nat → List UInt8 → Nat → Option (List Value × List UInt8)
  | _, rb, 0 => some ([], rb)
  | 0, _, _ + 1 => none
  | fuel + 1, rb, n + 1 =>
      (unpackOne fuel rb).bind fun (v, rb) => (unpackArray fuel rb n).map
        fun (array, rb) => (v :: array, rb)

/-- The second loop of `unpack_table`. -/
def unpackHash : Nat → List UInt8 → List (Value × Value) →
    Option (List (Value × Value) × List UInt8)
  | 0, _, _ => none
  | fuel + 1, rb, next =>
      (unpackOne fuel rb).bind fun (key, rb) =>
        if key.isNil then some (next, rb)
        else (unpackOne fuel rb).bind fun (value, rb) => unpackHash fuel rb (rawset next key value)

end

/-- The loop of `luaseri_unpack`. -/
def unpackFrom : Nat → List UInt8 → Option (List Value)
  | _, [] => some []
  | 0, _ :: _ => none
  | fuel + 1, rb => (unpackOne fuel rb).bind fun (v, rb) => (unpackFrom fuel rb).map (v :: ·)

def unpack (buffer : List UInt8) : Option (List Value) := unpackFrom (3 * buffer.length) buffer

end Model

end SdyServer.Seri
