import Mathlib.Logic.Function.Basic
import SdyServer.Lib.Lua

/-!
# Messages

A message is written and read by its template, a list of fields with a key, a type and a count. Only
a count above one matters: it makes the field a list. Numbers have a fixed width, and strings and
lists begin with their length in two bytes. A packed message begins with its length and its id.
-/

namespace SdyServer.Protocol

inductive Value where
  | nil
  | number (n : Int)
  | string (s : List UInt8)
  | array (items : List Value)
  | record (get : String → Value)

mutual

/-- The type of a field. `other` is any further name. -/
inductive FieldType where
  | byte
  | short
  | int
  | long
  | ulong
  | string
  | other (name : String)
  | template (tpl : Template)

inductive Template where
  | nil
  | cons (key : String) (type : FieldType) (count : Nat) (rest : Template)

end

section MsgData

def stringChar (codes : List Int) : Lua (List UInt8) :=
  codes.mapM fun code =>
    if 0 ≤ code ∧ code < 256 then .ok (UInt8.ofNat code.toNat) else .error .badArgument

def byte2Data (byte : Int) : Lua (List UInt8) := stringChar [byte]

def short2Data (short : Int) : Lua (List UInt8) := stringChar [short / 256, short % 256]

def int2Data (int : Int) : Lua (List UInt8) :=
  let byte4 := int / 16777216
  let byte3 := int % 16777216
  let byte2 := byte3 % 65536
  stringChar [byte4, byte3 / 65536, byte2 / 256, byte2 % 256]

def int642Data (int64 : Int) : Lua (List UInt8) :=
  let byte7 := int64 % 72057594037927936
  let byte6 := byte7 % 281474976710656
  let byte5 := byte6 % 1099511627776
  let byte4 := byte5 % 4294967296
  let byte3 := byte4 % 16777216
  let byte2 := byte3 % 65536
  stringChar [int64 / 72057594037927936, byte7 / 281474976710656, byte6 / 1099511627776,
    byte5 / 4294967296, byte4 / 16777216, byte3 / 65536, byte2 / 256, byte2 % 256]

/-- `string.byte(data, i)` in a sum. -/
def byteAt (data : List UInt8) (i : Nat) : Lua Int :=
  (Lua.need .arithmeticOnNil (Lua.nth data i)).map fun byte => (byte.toNat : Int)

def data2Byte (data : List UInt8) : Option Int :=
  (Lua.nth data 1).map fun byte => (byte.toNat : Int)

def data2Short (data : List UInt8) : Lua Int := do
  return 256 * (← byteAt data 1) + (← byteAt data 2)

def data2Int (data : List UInt8) : Lua Int := do
  return 16777216 * (← byteAt data 1) + 65536 * (← byteAt data 2) + 256 * (← byteAt data 3) +
    (← byteAt data 4)

def data2Int64 (data : List UInt8) : Lua Int := do
  return 72057594037927936 * (← byteAt data 1) + 281474976710656 * (← byteAt data 2) +
    1099511627776 * (← byteAt data 3) + 4294967296 * (← byteAt data 4) +
    16777216 * (← byteAt data 5) + 65536 * (← byteAt data 6) + 256 * (← byteAt data 7) +
    (← byteAt data 8)

end MsgData

section Combine

/-- A number is appended unless it is out of range, and nothing is appended for nil. -/
def append (inRange : Int → Bool) (toData : Int → Lua (List UInt8)) (data : List UInt8) :
    Value → Lua (List UInt8)
  | .nil => .ok data
  | .number n => if inRange n then return data ++ (← toData n) else .ok data
  | _ => .error .badArgument

def appendByte : List UInt8 → Value → Lua (List UInt8) :=
  append (fun n => 0 ≤ n ∧ n < 256) byte2Data

def appendShort : List UInt8 → Value → Lua (List UInt8) :=
  append (fun n => 0 ≤ n ∧ n < 65536) short2Data

def appendInt : List UInt8 → Value → Lua (List UInt8) :=
  append (fun n => 0 ≤ n ∧ n < 4294967296) int2Data

def appendInt64 : List UInt8 → Value → Lua (List UInt8) := append (fun n => 0 ≤ n) int642Data

def appendString (data : List UInt8) : Value → Lua (List UInt8)
  | .nil => .ok data
  | .string s => return data ++ (← short2Data s.length) ++ s
  | .number n => return data ++ (← short2Data (toString n).length) ++ (toString n).toUTF8.toList
  | _ => .error .badArgument

/-- `CDataCombine:getData`: the length, the id and the fields. -/
def getData (msgId : Int) (data : List UInt8) : Lua (List UInt8) :=
  return (← short2Data (2 + data.length)) ++ (← short2Data msgId) ++ data

end Combine

section Writer

/-- `msg[key]`. -/
def Value.index (key : String) : Value → Lua Value
  | .nil | .number _ => .error .indexNil
  | .string _ | .array _ => .ok .nil
  | .record get => .ok (get key)

def Value.items : Value → Lua (List Value ⊕ Nat)
  | .nil | .record _ => .ok (.inr 0)
  | .array items => .ok (.inl items)
  | .string s => .ok (.inr s.length)
  | .number _ => .error .badArgument

mutual

def writer (msg : Value) : Template → List UInt8 → Lua (List UInt8)
  | .nil, data => .ok data
  | .cons key type count rest, data => do
      let value ← msg.index key
      if 1 < count then
        match ← value.items with
        | .inl items =>
            let data ← appendShort data (.number items.length)
            let data ← items.foldlM (fun data item =>
              writeValue "not table string int short" type item data) data
            writer msg rest data
        | .inr len =>
            let data ← appendShort data (.number len)
            if 0 < len then .error (.assertion (key ++ " the type should be table! "))
            else writer msg rest data
      else
        let data ← writeValue "not table string int short byte" type value data
        writer msg rest data

/-- The branches of `writer` on the type of a field; `text` is what the assertion says. -/
def writeValue (text : String) : FieldType → Value → List UInt8 → Lua (List UInt8)
  | .template tpl, value, data => writer value tpl data
  | .string, value, data => appendString data value
  | .int, value, data => appendInt data value
  | .short, value, data => appendShort data value
  | .long, value, data => appendInt64 data value
  | .byte, value, data => appendByte data value
  | .ulong, _, _ => .error (.assertion (text ++ "ulong"))
  | .other name, _, _ => .error (.assertion (text ++ name))

end

/-- The global `template`. -/
structure Templates where
  request : Int → Option Template
  respone : Int → Option Template

def packMsg (templates : Templates) (msgId : Int) (msg : Value) (isclient : Bool) :
    Lua (Option (List UInt8)) :=
  match msg with
  | .nil => .ok none
  | msg => do
      let tpl ← Lua.need .badArgument
        (if isclient then templates.request msgId else templates.respone msgId)
      let data ← writer msg tpl []
      return some (← getData msgId data)

end Writer

section Reader

/-- `string.sub(data, idx, idx + len - 1)`, positions counted from one. -/
def sub (data : List UInt8) (idx len : Nat) : List UInt8 := (data.drop (idx - 1)).take len

def getMsgByte (data : List UInt8) (idx : Nat) : Option Int × Nat :=
  (data2Byte (sub data idx 1), idx + 1)

def getMsgShort (data : List UInt8) (idx : Nat) : Lua (Int × Nat) :=
  return (← data2Short (sub data idx 2), idx + 2)

def getMsgInt (data : List UInt8) (idx : Nat) : Lua (Int × Nat) :=
  return (← data2Int (sub data idx 4), idx + 4)

def getMsgLong (data : List UInt8) (idx : Nat) : Lua (Int × Nat) :=
  return (← data2Int64 (sub data idx 8), idx + 8)

def getMsgString (data : List UInt8) (idx : Nat) : Lua (List UInt8 × Nat) := do
  let len ← data2Short (sub data idx 2)
  return (sub data (idx + 2) len.toNat, idx + 2 + len.toNat)

def readItems (read : Nat → Lua (Value × Nat)) : Nat → Nat → Lua (List Value × Nat)
  | 0, idx => .ok ([], idx)
  | n + 1, idx => do
      let (item, idx) ← read idx
      let (items, idx) ← readItems read n idx
      return (item :: items, idx)

mutual

def reader (data : List UInt8) : Template → (String → Value) → Nat → Lua ((String → Value) × Nat)
  | .nil, msg, idx => .ok (msg, idx)
  | .cons key type count rest, msg, idx => do
      if 1 < count then
        let (len, idx) ← getMsgShort data idx
        let (items, idx) ← readItems (fun idx => readValue data type idx) len.toNat idx
        reader data rest (Function.update msg key (.array items)) idx
      else
        let (value, idx) ← readValue data type idx
        reader data rest (Function.update msg key value) idx

/-- The branches of `reader` on the type of a field. -/
def readValue (data : List UInt8) : FieldType → Nat → Lua (Value × Nat)
  | .template tpl, idx => do
      let (msg, idx) ← reader data tpl (fun _ => .nil) idx
      return (.record msg, idx)
  | .string, idx => do
      let (s, idx) ← getMsgString data idx
      return (.string s, idx)
  | .int, idx => do
      let (n, idx) ← getMsgInt data idx
      return (.number n, idx)
  | .short, idx => do
      let (n, idx) ← getMsgShort data idx
      return (.number n, idx)
  | .ulong, idx | .long, idx => do
      let (n, idx) ← getMsgLong data idx
      return (.number n, idx)
  | .byte, idx =>
      let (n, idx) := getMsgByte data idx
      .ok (n.elim .nil .number, idx)
  | .other name, _ => .error (.assertion ("not table string int short" ++ name))

end

def unpackMsg (templates : Templates) (data : List UInt8) (isclient : Bool) :
    Lua (Int × Value) := do
  let data := data ++ List.replicate 8 0
  let (msgId, idx) ← getMsgShort data 1
  match if isclient then templates.respone msgId else templates.request msgId with
  | none => .error (.assertion ("can't find template by msg_id:" ++ toString msgId))
  | some tpl =>
      let (msg, _) ← reader data tpl (fun _ => .nil) idx
      return (msgId, .record msg)

end Reader

end SdyServer.Protocol
