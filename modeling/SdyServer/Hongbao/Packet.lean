import Mathlib.Data.Rat.Defs
import Mathlib.Algebra.Order.Field.Rat
import SdyServer.Lib.Lua

/-!
# Packet values and their points

A packet holds its amount as text. Its points are read off the digits: six special patterns on the
last four characters, and the cow of the digit sum. A value without any point, such as 0.00, has no
cow at all.
-/

namespace SdyServer.Hongbao

abbrev Value := List Char

section Special

def tail4 (value : Value) : Value :=
  if value.length > 4 then value.drop (value.length - 4) else value

/-- The test shared by the special points: the tail is one of the listed values. -/
def specialPoint (cfg : List String) (tag : Nat) (value : Value) : Option (Value × Nat) :=
  if (cfg.map String.toList).contains (tail4 value) then some (tail4 value, tag) else none

def getBaoziCfg : List String :=
  ["1.11", "2.22", "3.33", "4.44", "5.55", "6.66", "7.77", "8.88", "9.99"]

def getManniuCfg : List String :=
  ["1.00", "2.00", "3.00", "4.00", "5.00", "6.00", "7.00", "8.00", "9.00"]

def getDaoshunCfg : List String := ["9.87", "8.76", "7.65", "6.54", "5.43", "4.32", "3.21"]

def getZhengshunCfg : List String := ["1.23", "2.34", "3.45", "4.56", "5.67", "6.78", "7.89"]

def getDuiziCfg : List String :=
  ["0.11", "0.22", "0.33", "0.44", "0.55", "0.66", "0.77", "0.88", "0.99"]

def getJinniuCfg : List String :=
  ["0.10", "0.20", "0.30", "0.40", "0.50", "0.60", "0.70", "0.80", "0.90"]

def baozi : Value → Option (Value × Nat) := specialPoint getBaoziCfg 16

def manniu : Value → Option (Value × Nat) := specialPoint getManniuCfg 15

def daoshun : Value → Option (Value × Nat) := specialPoint getDaoshunCfg 14

def zhengshun : Value → Option (Value × Nat) := specialPoint getZhengshunCfg 13

def duizi : Value → Option (Value × Nat) := specialPoint getDuiziCfg 12

def jinniu : Value → Option (Value × Nat) := specialPoint getJinniuCfg 11

end Special

section Digits

/-- The pattern class `%p`. -/
def isPunct (c : Char) : Bool :=
  let n := c.toNat
  (33 ≤ n && n ≤ 47) || (58 ≤ n && n ≤ 64) || (91 ≤ n && n ≤ 96) || (123 ≤ n && n ≤ 126)

/-- `tonumber` of one character. -/
def digit (c : Char) : Option Nat :=
  if 48 ≤ c.toNat ∧ c.toNat ≤ 57 then some (c.toNat - 48) else none

/-- `tonumber` of a decimal text. -/
def tonumber (value : Value) : Option ℚ :=
  let negative := value.head? = some '-'
  let body := if negative then value.drop 1 else value
  let whole := body.takeWhile (· ≠ '.')
  let fraction := (body.dropWhile (· ≠ '.')).drop 1
  match (whole ++ fraction).mapM digit with
  | none => none
  | some digits =>
      let n : ℚ := digits.foldl (fun n d => 10 * n + (d : ℚ)) 0 / 10 ^ fraction.length
      some (if negative then -n else n)

/-- The cow of the last three digits, and nothing when they are all zero. -/
def niuniu (value : Value) : Lua (Option (Value × Nat)) := do
  let str := value.filter fun c => !isPunct c
  let str := if str.length > 3 then str.drop (str.length - 3) else str
  let total ← str.foldlM (fun total c => do
    let d ← Lua.need .arithmeticOnNil (digit c)
    pure (total + d)) 0
  if total = 0 then return none
  return some (value, if total % 10 = 0 then 10 else total % 10)

end Digits

structure Point where
  pointType : Nat
  value : Value
  packetValue : Value
deriving DecidableEq, Repr

/-- The points of a value, the highest pattern first and the cow last. -/
def getCowData (value : Value) : Lua (List Point) := do
  let special := [baozi, manniu, daoshun, zhengshun, duizi, jinniu].filterMap fun f => f value
  let cow ← niuniu value
  return (special ++ cow.toList).map fun found => ⟨found.2, found.1, value⟩

/-- The size and parity classes of one point, in the order of the source's tests. -/
def classes (tag : Nat) : List Nat :=
  (if 11 ≤ tag ∧ tag ≤ 16 then [9] else []) ++
  (if tag ∈ [6, 8, 10] then [8] else []) ++
  (if tag ∈ [2, 4] then [7] else []) ++
  (if tag ∈ [7, 9] then [6] else []) ++
  (if tag ∈ [1, 3, 5] then [5] else []) ++
  (if tag ∈ [2, 4, 6, 8, 10] then [4] else []) ++
  (if tag ∈ [1, 3, 5, 7, 9] then [3] else []) ++
  (if tag ∈ [6, 7, 8, 9, 10] then [2] else []) ++
  (if tag ∈ [1, 2, 3, 4, 5] then [1] else [])

/-- `getSizeDanShuangData`: the classes and the points they come from, nil points for a value that
has none. -/
def getSizeDanShuangData (value : Value) : Lua (List Nat × Option (List Point)) := do
  let dataTable ← getCowData value
  if dataTable = [] then return ([], none)
  return (dataTable.flatMap fun data => classes data.pointType, some dataTable)

section Rates

def getCategoryRate : Int → Option (List ℚ)
  | 1 => some [5, 5, 5, 5, 5, 6, 7, 8, 9, 10, 11, 12, 13, 14, 15, 16]
  | 2 => some [1]
  | 3 => some [1, 1, 1, 1, 2, 4, 4, 2, 5]
  | 4 => some [17 / 2]
  | _ => none

/-- `config[i]` at an integer that need not be a position. -/
def atInt {α : Type} (config : List α) (i : Int) : Option α :=
  if i ≤ 0 then none else Lua.nth config i.toNat

/-- `getRate`: nil where the category has no such point. -/
def getRate (betType : Int) (pointType : Option Int) : Lua (Option ℚ) := do
  let config ← Lua.need .indexNil (getCategoryRate betType)
  if config.length = 1 then return config.head?
  return atInt config (pointType.getD 1)

def getMaxRate : Int → Option ℚ
  | 1 => some 16
  | 2 => some 1
  | 3 => some 5
  | 4 => some (17 / 2)
  | _ => none

end Rates

/-- The names of the special points, so many as `stringCowCfg` has. -/
def cowNamed (pointType : Int) : Bool := 1 ≤ pointType && pointType ≤ 16

/-- The size and parity classes that `stringSDSCfg` names. -/
def dxdsNamed (pointType : Int) : Bool := 1 ≤ pointType && pointType ≤ 9

end SdyServer.Hongbao
