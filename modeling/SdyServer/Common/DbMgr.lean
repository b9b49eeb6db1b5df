import SdyServer.Lib.Lua
import SdyServer.Lib.SqlTokens

/-!
# Statements from tables

The builders of `db_mgr` put statements together from tables of fields. Strings are put between
quotes as they are; `add` takes one that begins with `func:` for SQL, and a zero `id` for a value
that the database gives.
-/

namespace SdyServer.DbMgr

open Sql

section Values

/-- The name of a table or of a field. -/
structure Name where
  text : Text
  named : isName text = true
deriving DecidableEq

/-- A finite float: its text, of fourteen digits at most, and the integer that it is equal to. -/
structure LuaFloat where
  negative : Bool
  whole : Text
  fraction : Text
  exponent : Option (Char × Text)
  integer : Option Int
  whole_ne_nil : whole ≠ []
  whole_digits : ∀ c ∈ whole, c.isDigit = true
  fraction_digits : ∀ c ∈ fraction, c.isDigit = true
  exponent_digits : ∀ e ∈ exponent, (e.1 = '+' ∨ e.1 = '-') ∧ ∀ c ∈ e.2, c.isDigit = true
  real : fraction ≠ [] ∨ exponent.isSome = true

inductive Number where
  | int (i : Int)
  | float (x : LuaFloat)

inductive Value where
  | num (n : Number)
  | str (s : Text)

/-- A table, in the order in which `pairs` goes through it. -/
abbrev Fields := List (Name × Value)

def LuaFloat.unsigned (x : LuaFloat) : Text := x.whole ++ realTail x.fraction x.exponent

def signed (negative : Bool) (s : Text) : Text := if negative then '-' :: s else s

def formatInt (i : Int) : Text := signed (i < 0) (decimal i.natAbs)

/-- The text of a number in `table.concat`. -/
def Number.text : Number → Text
  | .int i => formatInt i
  | .float x => signed x.negative x.unsigned

/-- A number for `%d`. -/
def Number.toInteger : Number → Lua Int
  | .int i => return i
  | .float x => Lua.need .badArgument x.integer

def Number.isZero : Number → Bool
  | .int i => i = 0
  | .float x => x.integer = some 0

end Values

section Code

/-- The separator in front of a condition. -/
def pushWhere (array : List Text) : List Text :=
  array ++ [if array.length > 1 then " and ".toList else "WHERE ".toList]

/-- The separator in front of a field. -/
def pushComma (array : List Text) : List Text :=
  if array.length ≠ 0 then array ++ [",".toList] else array

/-- A condition of `count` and `query`. -/
def formatCondition (p : Name × Value) : Lua Text :=
  match p.2 with
  | .num n => return p.1.text ++ "=".toList ++ formatInt (← n.toInteger)
  | .str s => return p.1.text ++ "='".toList ++ s ++ "'".toList

def formatWhere (fields : Fields) : Lua (List Text) :=
  fields.foldlM (fun array p => return pushWhere array ++ [← formatCondition p]) []

/-- What `update` and `del` insert for a field. -/
def pairElements (p : Name × Value) : List Text :=
  match p.2 with
  | .num n => [p.1.text, "=".toList, n.text]
  | .str s => [p.1.text, "='".toList, s, "'".toList]

def concatWhere (fields : Fields) : List Text :=
  fields.foldl (fun array p => pushWhere array ++ pairElements p) []

/-- The parameter `where` of `count` and `query`. -/
inductive Where where
  | absent
  | table (fields : Fields)
  | text (sql : Text)

def whereSql (condition : Where) : Lua Text :=
  match condition with
  | .absent => return []
  | .table fields => return (← formatWhere fields).flatten
  | .text sql => return sql

/-- `cmd.count`. -/
def count (tablename : Name) (condition : Where) : Lua Text := do
  let sql ← whereSql condition
  return "SELECT count(*) FROM ".toList ++ tablename.text ++ " ".toList ++ sql

/-- `cmd.query`. -/
def query (tablename : Name) (condition : Where) (fields other : Option Text) : Lua Text := do
  let sql ← whereSql condition
  match fields, other with
  | some fields, some other =>
      return "SELECT ".toList ++ fields ++ " FROM ".toList ++ tablename.text ++ " ".toList ++ sql ++
        " ".toList ++ other
  | some fields, none =>
      return "SELECT ".toList ++ fields ++ " FROM ".toList ++ tablename.text ++ " ".toList ++ sql ++
        " limit 1000".toList
  | none, some other =>
      return "SELECT * FROM ".toList ++ tablename.text ++ " ".toList ++ sql ++ " ".toList ++ other
  | none, none =>
      return "SELECT * FROM ".toList ++ tablename.text ++ " ".toList ++ sql ++ " limit 1000".toList

/-- `string.find(v, "func:") == 1`. -/
def isFunc (v : Text) : Bool := "func:".toList.isPrefixOf v

/-- `string.gsub(v, "func:", "")`. -/
def removeFunc : Text → Text
  | 'f' :: 'u' :: 'n' :: 'c' :: ':' :: rest => removeFunc rest
  | c :: rest => c :: removeFunc rest
  | [] => []

def funcText (v : Text) : Text := removeFunc (v.filter (· ≠ Quote.double.char))

/-- What `add` inserts into `array_values`. -/
def addValue (p : Name × Value) : Text :=
  match p.2 with
  | .num n => if p.1.text = "id".toList ∧ n.isZero then "NULL".toList else n.text
  | .str v => if isFunc v then funcText v else "'".toList ++ v ++ "'".toList

/-- `cmd.add`. -/
def add (tablename : Name) (param : Fields) : Text :=
  let (array_sql, array_values) := param.foldl
    (fun arrays p => (pushComma arrays.1 ++ ["`".toList ++ p.1.text ++ "`".toList],
      pushComma arrays.2 ++ [addValue p])) ([], [])
  "insert into ".toList ++ tablename.text ++ "(".toList ++ array_sql.flatten ++
    ") values(".toList ++
    array_values.flatten ++ ")".toList

/-- `cmd.update`, which does nothing without fields. -/
def update (tablename : Name) (field condition : Option Fields) : Option Text :=
  field.map fun field =>
    let array_fields := field.foldl (fun array p => pushComma array ++ pairElements p) []
    let array_where := concatWhere (condition.getD [])
    "UPDATE ".toList ++ tablename.text ++ " SET ".toList ++ array_fields.flatten ++ " ".toList ++
      array_where.flatten

/-- `cmd.del`. -/
def del (tablename : Name) (condition : Option Fields) : Text :=
  "DELETE from ".toList ++ tablename.text ++ " ".toList ++ (concatWhere (condition.getD [])).flatten

end Code

end SdyServer.DbMgr
