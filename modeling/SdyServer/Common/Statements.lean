import SdyServer.Common.DbMgr

/-!
# The statements that are meant

A statement is its tokens: one for each string, which is the string itself, one for each number and
a sign in front of it, and the conditions behind a single WHERE with `and` between them. This is
what MySQL reads as long as no string has a quote or a backslash, which the builders do not escape.
A text that begins with `func:` is meant to be SQL.
-/

namespace SdyServer.DbMgr

open Sql

section Statements

/-- What a statement has for a value. -/
inductive Operand where
  | literal (s : Text)
  | int (i : Int)
  | real (negative : Bool) (w : Text)
  | null
  | expression (ts : List Token)

inductive Statement where
  | count (table : Name) (conditions : List (Name × Operand))
  | select (fields : List Token) (table : Name) (conditions : List (Name × Operand))
    (tail : List Token)
  | insert (table : Name) (row : List (Name × Operand))
  | update (table : Name) (fields conditions : List (Name × Operand))
  | delete (table : Name) (conditions : List (Name × Operand))

def signedTokens (negative : Bool) (t : Token) : List Token :=
  if negative then [.symbol '-', t] else [t]

def keyword (w : String) : Token := .word w.toList

def Operand.tokens : Operand → List Token
  | .literal s => [.literal s]
  | .int i => signedTokens (i < 0) (.number i.natAbs)
  | .real negative w => signedTokens negative (.real w)
  | .null => [keyword "NULL"]
  | .expression ts => ts

def assignment (p : Name × Operand) : List Token := .word p.1.text :: .symbol '=' :: p.2.tokens

def whereTokens (conditions : List (Name × Operand)) : List Token :=
  if conditions = [] then [] else keyword "WHERE" ::
    joined [keyword "and"] (conditions.map assignment)

def Statement.tokens : Statement → List Token
  | .count table conditions =>
      [keyword "SELECT", keyword "count", .symbol '(', .symbol '*', .symbol ')', keyword "FROM",
        .word table.text] ++
        whereTokens conditions
  | .select fields table conditions tail =>
      keyword "SELECT" ::
        (fields ++ [keyword "FROM", .word table.text] ++ whereTokens conditions ++ tail)
  | .insert table row =>
      [keyword "insert", keyword "into", .word table.text, .symbol '('] ++
        joined [.symbol ','] (row.map fun p => [.name p.1.text]) ++
          [.symbol ')', keyword "values", .symbol '('] ++
          joined [.symbol ','] (row.map fun p => p.2.tokens) ++ [.symbol ')']
  | .update table fields conditions =>
      [keyword "UPDATE", .word table.text, keyword "SET"] ++
        joined [.symbol ','] (fields.map assignment) ++
        whereTokens conditions
  | .delete table conditions =>
      [keyword "DELETE", keyword "from", .word table.text] ++ whereTokens conditions

def Number.operand : Number → Operand
  | .int i => .int i
  | .float x => .real x.negative x.unsigned

def Value.operand : Value → Operand
  | .num n => n.operand
  | .str s => .literal s

def operands (fields : Fields) : List (Name × Operand) := fields.map fun p => (p.1, p.2.operand)

/-- A value as `count` and `query` write it, which raise on a number that is no integer. -/
def formatOperand (p : Name × Value) : Lua (Name × Operand) :=
  match p.2 with
  | .num n => return (p.1, .int (← n.toInteger))
  | .str s => return (p.1, .literal s)

/-- A value as `add` means it. -/
def addOperand (p : Name × Value) : Name × Operand :=
  match p.2 with
  | .num n => (p.1, if p.1.text = "id".toList ∧ n.isZero then .null else n.operand)
  | .str s => (p.1, if isFunc s then .expression ((tokens (funcText s)).getD []) else .literal s)

/-- No string has a quote, nor a backslash that a literal does not keep. -/
def Clean (fields : Fields) : Prop := ∀ p ∈ fields, ∀ s, p.2 = .str s → clean s = true

/-- The same for `add`, where the texts that are SQL have tokens of their own. -/
def CleanForAdd (fields : Fields) : Prop := ∀ p ∈ fields, ∀ s, p.2 = .str s →
  if isFunc s then (tokens (funcText s)).isSome = true else clean s = true

end Statements

section Parts

variable {s r : Text} {t : Token} {ts : List Token} {op : Operand}

theorem tokens_keyword {w : Text} (hw : isName w = true) (r : Text) :
    tokens (w ++ ' ' :: r) = (tokens r).map (.word w :: ·) := by
  rw [tokens_append (tokens_name hw) (by decide), tokens_space (by decide)]
  rfl

theorem tokens_signed {c : Char} (hc : c.isDigit = true) (hs : tokens (c :: s) = some [t])
    (negative : Bool) :
    tokens (signed negative (c :: s)) = some (signedTokens negative t) := by
  cases negative with
  | false => exact hs
  | true =>
      show tokens ('-' :: c :: s) = _
      rw [tokens_minus c s hc, hs]
      rfl

theorem tokens_formatInt (i : Int) : tokens (formatInt i) = some (Operand.int i).tokens := by
  have hdecimal := tokens_decimal i.natAbs
  have hdigits := isDigit_decimal i.natAbs
  have hne := decimal_ne_nil i.natAbs
  unfold formatInt
  match decimal i.natAbs, hne, hdigits, hdecimal with
  | c :: rest, _, hdigits, hdecimal =>
      exact tokens_signed (hdigits c (List.mem_cons_self ..)) hdecimal _

theorem tokens_number (n : Number) : tokens n.text = some n.operand.tokens := by
  cases n with
  | int i => exact tokens_formatInt i
  | float x =>
      have hreal :=
        tokens_real x.whole_ne_nil x.whole_digits x.fraction_digits x.exponent_digits x.real
      have hdigits := x.whole_digits
      have hne := x.whole_ne_nil
      show tokens (signed x.negative (x.whole ++ realTail x.fraction x.exponent)) =
        some (signedTokens x.negative (.real (x.whole ++ realTail x.fraction x.exponent)))
      match x.whole, hne, hdigits, hreal with
      | c :: rest, _, hdigits, hreal =>
          exact tokens_signed (hdigits c (List.mem_cons_self ..)) hreal _

theorem tokens_assignment (k : Name) (hs : tokens s = some op.tokens) :
    tokens (k.text ++ '=' :: s) = some (assignment (k, op)) := by
  rw [tokens_append (tokens_name k.named) (by decide), tokens_symbol (by decide), hs]
  rfl

theorem tokens_quoted (hs : clean s = true) :
    tokens ("'".toList ++ s ++ "'".toList) = some [.literal s] := by
  have hquotes : "'".toList ++ s ++ "'".toList = Quote.single.char :: (s ++ [Quote.single.char]) :=
    rfl
  rw [hquotes, tokens_literal hs]

/-- A condition is read as it is meant. -/
theorem tokens_pairElements {p : Name × Value} (hp : ∀ s, p.2 = .str s → clean s = true) :
    tokens (pairElements p).flatten = some (assignment (p.1, p.2.operand)) := by
  obtain ⟨k, v⟩ := p
  cases v with
  | num n =>
      have htext : (pairElements (k, .num n)).flatten = k.text ++ '=' :: n.text := by
        simp [pairElements]
      rw [htext]
      exact tokens_assignment k (tokens_number n)
  | str s =>
      have htext : (pairElements (k, .str s)).flatten = k.text ++ '=' ::
          ("'".toList ++ s ++ "'".toList) := by
        simp [pairElements]
      rw [htext]
      exact tokens_assignment k (tokens_quoted (hp s rfl))

end Parts

section Loops

variable {pieces : List (List Text)} {array : List Text}

/-- The conditions behind WHERE, as a text. -/
def whereText (parts : List Text) : Text :=
  if parts = [] then [] else "WHERE ".toList ++ joined " and ".toList parts

/-- Once an array is long enough, `sep` is pushed before all pieces. -/
theorem flatten_pushed {push : List Text → List Text} {sep : Text} {n : Nat}
    (hpush : ∀ array : List Text, n < array.length → push array = array ++ [sep])
    (hlong : n < array.length) :
    (pieces.foldl (fun array ps => push array ++ ps) array).flatten =
      array.flatten ++ (pieces.map List.flatten).flatMap (sep ++ ·) := by
  induction pieces generalizing array with
  | nil => exact (List.append_nil _).symm
  | cons ps pieces ih =>
      have hlong' : n < (push array ++ ps).length := by
        rw [hpush array hlong, List.length_append, List.length_append]
        omega
      rw [List.foldl_cons, ih hlong', hpush array hlong, List.flatten_append, List.flatten_append,
        List.map_cons,
        List.flatMap_cons]
      simp

/-- The first condition follows WHERE, and each other one an `and`. -/
theorem flatten_pushWhere (hne : ∀ ps ∈ pieces, ps ≠ []) :
    (pieces.foldl (fun array ps => pushWhere array ++ ps) []).flatten = whereText
    (pieces.map List.flatten) := by
  cases pieces with
  | nil => rfl
  | cons ps pieces =>
      rw [List.forall_mem_cons] at hne
      have hlong : (pushWhere [] ++ ps).length > 1 := by
        have := List.length_pos_of_ne_nil hne.1
        rw [pushWhere, List.length_append, List.length_append, List.length_singleton]
        omega
      have hpush : ∀ array : List Text, 1 < array.length → pushWhere array =
          array ++ [" and ".toList] :=
        fun array h => by rw [pushWhere, if_pos h]
      rw [List.foldl_cons, flatten_pushed hpush hlong, List.flatten_append, whereText,
        if_neg (by simp),
        List.map_cons, joined, List.append_assoc]
      rfl

theorem flatten_pushComma (hne : ∀ ps ∈ pieces, ps ≠ []) :
    (pieces.foldl (fun array ps => pushComma array ++ ps) []).flatten =
      joined ",".toList (pieces.map List.flatten) := by
  cases pieces with
  | nil => rfl
  | cons ps pieces =>
      rw [List.forall_mem_cons] at hne
      have hfirst : pushComma [] ++ ps = ps := rfl
      have hpush : ∀ array : List Text, 0 < array.length → pushComma array =
          array ++ [",".toList] :=
        fun array h => by rw [pushComma, if_pos h.ne']
      rw [List.foldl_cons, hfirst, flatten_pushed hpush (List.length_pos_of_ne_nil hne.1)]
      rfl

theorem pairElements_ne_nil (p : Name × Value) : pairElements p ≠ [] := by
  unfold pairElements
  split <;> exact List.cons_ne_nil _ _

theorem flatten_concatWhere (fields : Fields) :
    (concatWhere fields).flatten = whereText (fields.map fun p => (pairElements p).flatten) := by
  have hloop := @flatten_pushWhere (fields.map pairElements) fun ps hps => by
    obtain ⟨p, -, rfl⟩ := List.mem_map.1 hps
    exact pairElements_ne_nil p
  rw [List.foldl_map, List.map_map] at hloop
  exact hloop

/-- The loop of `count` and `query` is the one of `del`, but for the numbers. -/
theorem formatWhere_eq (fields : Fields) :
    formatWhere fields = (fields.mapM formatCondition).map fun parts =>
      parts.foldl (fun array part => pushWhere array ++ [part]) [] := by
  unfold formatWhere
  have hloop : ∀ array : List Text,
      fields.foldlM (fun array p => return pushWhere array ++ [← formatCondition p]) array =
        (fields.mapM formatCondition).map fun parts =>
          parts.foldl (fun array part => pushWhere array ++ [part]) array := by
    induction fields with
    | nil => exact fun _ => rfl
    | cons p fields ih =>
        intro array
        rw [List.foldlM_cons, List.mapM_cons]
        cases formatCondition p with
        | error e => rfl
        | ok part =>
            show fields.foldlM _ (pushWhere array ++ [part]) = _
            rw [ih]
            cases fields.mapM formatCondition <;> rfl
  exact hloop []

theorem flatten_formatWhere (fields : Fields) :
    (formatWhere fields).map List.flatten = (fields.mapM formatCondition).map whereText := by
  rw [formatWhere_eq]
  cases fields.mapM formatCondition with
  | error e => rfl
  | ok parts =>
      have hloop := @flatten_pushWhere (parts.map fun part => [part]) (by simp)
      rw [List.foldl_map, List.map_map] at hloop
      have hsame : parts.map (List.flatten ∘ fun part => [part]) = parts := by
        simp [Function.comp_def]
      rw [hsame] at hloop
      exact congrArg Except.ok hloop

end Loops

section Whole

variable {fields : Fields} {parts : List Text} {s r : Text} {ts : List Token} {tablename : Name}

theorem tokens_and (r : Text) : tokens (' ' :: ("and ".toList ++ r)) = (tokens r).map
    ([keyword "and"] ++ ·) := by
  have hand := @tokens_keyword "and".toList (by decide) r
  rw [tokens_space (by decide)]
  exact hand

theorem tokens_comma (r : Text) : tokens (',' :: ([] ++ r)) = (tokens r).map ([.symbol ','] ++ ·) :=
  tokens_symbol (by decide) r

/-- Conditions with tokens of their own, behind WHERE. -/
theorem tokens_whereText {conditions : List (Name × Operand)}
    (hparts : List.Forall₂ (fun s p => tokens s = some (assignment p)) parts conditions) :
    tokens (whereText parts) = some (whereTokens conditions) := by
  unfold whereText whereTokens
  have hnil : parts = [] ↔ conditions = [] := by
    cases hparts <;> simp
  by_cases hempty : parts = []
  · rw [if_pos hempty, if_pos (hnil.1 hempty)]
    rfl
  · rw [if_neg hempty, if_neg (mt hnil.2 hempty)]
    have hwhere := @tokens_keyword "WHERE".toList (by decide) (joined " and ".toList parts)
    have hjoined :=
      tokens_joined (c := ' ') (by decide) tokens_and (List.forall₂_map_right_iff.2 hparts)
    have hand : " and ".toList = ' ' :: "and ".toList := rfl
    rw [hand] at hwhere ⊢
    rw [hjoined] at hwhere
    exact hwhere

theorem forall₂_pairElements (hclean : Clean fields) :
    List.Forall₂ (fun s p => tokens s = some (assignment p))
    (fields.map fun p => (pairElements p).flatten)
      (operands fields) := by
  unfold operands
  rw [List.forall₂_map_left_iff, List.forall₂_map_right_iff, List.forall₂_same]
  exact fun p hp => tokens_pairElements (hclean p hp)

theorem tokens_concatWhere (hclean : Clean fields) :
    tokens (concatWhere fields).flatten = some (whereTokens (operands fields)) := by
  rw [flatten_concatWhere]
  exact tokens_whereText (forall₂_pairElements hclean)

/-- A name that is followed by a blank. -/
theorem tokens_named (k : Name) (r : Text) : tokens (k.text ++ (" ".toList ++ r)) = (tokens r).map
    (.word k.text :: ·) :=
  tokens_keyword k.named r

theorem tokens_append_blank (hs : tokens s = some ts) (r : Text) :
    tokens (s ++ (" ".toList ++ r)) = (tokens r).map (ts ++ ·) := by
  show tokens (s ++ ' ' :: r) = _
  rw [tokens_append hs (by decide), tokens_space (by decide)]

/-- **`del`** is read as it is meant. -/
theorem tokens_del (tablename : Name) (hclean : Clean fields) :
    tokens (del tablename (some fields)) =
    some (Statement.delete tablename (operands fields)).tokens := by
  have hdelete : exec .blank "DELETE from ".toList =
    ([keyword "DELETE", keyword "from"], .blank) := by decide
  show tokens ("DELETE from ".toList ++ tablename.text ++ " ".toList ++
    (concatWhere fields).flatten) = _
  rw [List.append_assoc, List.append_assoc, tokens_of_blank hdelete, tokens_named,
    tokens_concatWhere hclean]
  rfl

theorem flatten_fields (fields : Fields) :
    (fields.foldl (fun array p => pushComma array ++ pairElements p) []).flatten =
      joined ",".toList (fields.map fun p => (pairElements p).flatten) := by
  have hloop := @flatten_pushComma (fields.map pairElements) fun ps hps => by
    obtain ⟨p, -, rfl⟩ := List.mem_map.1 hps
    exact pairElements_ne_nil p
  rw [List.foldl_map, List.map_map] at hloop
  exact hloop

/-- **`update`** is read as it is meant. -/
theorem tokens_update (tablename : Name) {conditions : Fields} (hfields : Clean fields)
    (hclean : Clean conditions) :
    (update tablename (some fields) (some conditions)).map tokens =
      some (some (Statement.update tablename (operands fields) (operands conditions)).tokens) := by
  have hupdate : exec .blank "UPDATE ".toList = ([keyword "UPDATE"], .blank) := by decide
  have hset : exec .blank "SET ".toList = ([keyword "SET"], .blank) := by decide
  have hsplit : " SET ".toList = " ".toList ++ "SET ".toList := rfl
  have hassignments : tokens (joined ",".toList (fields.map fun p => (pairElements p).flatten)) =
      some (joined [.symbol ','] ((operands fields).map assignment)) :=
    tokens_joined
      (by decide) tokens_comma (List.forall₂_map_right_iff.2 (forall₂_pairElements hfields))
  show some (tokens ("UPDATE ".toList ++ tablename.text ++ " SET ".toList ++
    (fields.foldl (fun array p => pushComma array ++ pairElements p) []).flatten ++ " ".toList ++
      (concatWhere conditions).flatten)) = _
  rw [flatten_fields, hsplit]
  simp only [List.append_assoc]
  rw [tokens_of_blank hupdate, tokens_named, tokens_of_blank hset, tokens_append_blank hassignments,
    tokens_concatWhere hclean]
  simp [Statement.tokens]

/-- A value that `%d` raises on raises in the statement that is meant as well. -/
theorem formatCondition_cases {p : Name × Value} (hp : ∀ s, p.2 = .str s → clean s = true) :
    (∃ e, formatCondition p = .error e ∧ formatOperand p = .error e) ∨
      ∃ part q, formatCondition p = .ok part ∧ formatOperand p = .ok q ∧ tokens part =
      some (assignment q) := by
  obtain ⟨k, v⟩ := p
  cases v with
  | num n =>
      cases hinteger : n.toInteger with
      | error e =>
          refine .inl ⟨e, ?_, ?_⟩
          · simp only [formatCondition, hinteger]
            rfl
          · simp only [formatOperand, hinteger]
            rfl
      | ok i =>
          refine .inr ⟨k.text ++ '=' :: formatInt i, (k, .int i), ?_, ?_,
            tokens_assignment k (tokens_formatInt i)⟩
          · simp only [formatCondition, hinteger, List.append_assoc]
            rfl
          · simp only [formatOperand, hinteger]
            rfl
  | str s =>
      refine .inr ⟨k.text ++ '=' :: ("'".toList ++ s ++ "'".toList), (k, .literal s), ?_, rfl,
        tokens_assignment k (tokens_quoted (hp s rfl))⟩
      simp only [formatCondition, List.append_assoc]
      rfl

theorem mapM_formatCondition (hclean : Clean fields) :
    (∃ e, fields.mapM formatCondition = .error e ∧ fields.mapM formatOperand = .error e) ∨
      ∃ parts conditions, fields.mapM formatCondition = .ok parts ∧ fields.mapM formatOperand =
      .ok conditions ∧
        List.Forall₂ (fun s p => tokens s = some (assignment p)) parts conditions := by
  induction fields with
  | nil => exact .inr ⟨[], [], rfl, rfl, .nil⟩
  | cons p fields ih =>
      rw [List.mapM_cons, List.mapM_cons]
      rcases formatCondition_cases (hclean p (List.mem_cons_self ..)) with
        ⟨e, hcondition, hoperand⟩ | ⟨part, q, hcondition, hoperand, hpart⟩
      · rw [hcondition, hoperand]
        exact .inl ⟨e, rfl, rfl⟩
      · rw [hcondition, hoperand]
        rcases ih fun p' hp' => hclean p' (List.mem_cons_of_mem _ hp') with
          ⟨e, hparts, hconditions⟩ | ⟨parts, conditions, hparts, hconditions, hall⟩
        · rw [hparts, hconditions]
          exact .inl ⟨e, rfl, rfl⟩
        · rw [hparts, hconditions]
          exact .inr ⟨part :: parts, q :: conditions, rfl, rfl, .cons hpart hall⟩

/-- The conditions of `count` and `query`. -/
theorem tokens_whereSql (hclean : Clean fields) :
    (∃ e, whereSql (.table fields) = .error e ∧ fields.mapM formatOperand = .error e) ∨
      ∃ sql conditions, whereSql (.table fields) = .ok sql ∧ fields.mapM formatOperand =
      .ok conditions ∧
        tokens sql = some (whereTokens conditions) := by
  have hsql : whereSql (.table fields) = (fields.mapM formatCondition).map whereText := by
    rw [← flatten_formatWhere]
    rfl
  rw [hsql]
  rcases mapM_formatCondition hclean with ⟨e, hparts, hconditions⟩ | ⟨parts, conditions, hparts,
    hconditions, hall⟩
  · exact .inl ⟨e, by rw [hparts]; rfl, hconditions⟩
  · exact .inr ⟨whereText parts,
      conditions, by rw [hparts]; rfl, hconditions, tokens_whereText hall⟩

/-- **`count`** is read as it is meant. -/
theorem tokens_count (tablename : Name) (hclean : Clean fields) :
    (count tablename (.table fields)).map tokens =
      (fields.mapM formatOperand).map fun conditions => some
      (Statement.count tablename conditions).tokens := by
  unfold count
  rcases tokens_whereSql hclean with ⟨e, hsql, hconditions⟩ | ⟨sql, conditions, hsql,
    hconditions, htokens⟩
  · rw [hsql, hconditions]
    rfl
  · rw [hsql, hconditions]
    have hselect : exec .blank "SELECT count(*) FROM ".toList =
        ([keyword "SELECT", keyword "count", .symbol '(', .symbol '*', .symbol ')', keyword "FROM"],
            .blank) := by
      decide
    show Except.ok (tokens ("SELECT count(*) FROM ".toList ++ tablename.text ++ " ".toList ++ sql))
      = Except.ok _
    rw [List.append_assoc, List.append_assoc, tokens_of_blank hselect, tokens_named, htokens]
    rfl

theorem query_eq (tablename : Name) (condition : Where) (columns other : Option Text) :
    query tablename condition columns other = (whereSql condition).map fun sql =>
      "SELECT ".toList ++
      (columns.getD "*".toList ++ (" ".toList ++ ("FROM ".toList ++ (tablename.text ++
        (" ".toList ++ (sql ++ (" ".toList ++ other.getD "limit 1000".toList))))))) := by
  unfold query
  cases whereSql condition with
  | error e => rfl
  | ok sql =>
      have hfrom : " FROM ".toList = " ".toList ++ "FROM ".toList := rfl
      have hselect : "SELECT * FROM ".toList = "SELECT ".toList ++
          ("*".toList ++ (" ".toList ++ "FROM ".toList)) :=
        rfl
      have hlimit : " limit 1000".toList = " ".toList ++ "limit 1000".toList := rfl
      cases columns <;> cases other <;> refine congrArg Except.ok ?_ <;>
        simp only [hfrom, hselect, hlimit, List.append_assoc, Option.getD]

/-- **`query`** is read as it is meant, where the fields and what follows the conditions have tokens
of their own. -/
theorem tokens_query (tablename : Name) (hclean : Clean fields) {columns other : Option Text}
    {cs os : List Token}
    (hcolumns : tokens (columns.getD "*".toList) = some cs)
    (hother : tokens (other.getD "limit 1000".toList) = some os) :
    (query tablename (.table fields) columns other).map tokens =
      (fields.mapM formatOperand).map fun conditions =>
        some (Statement.select cs tablename conditions os).tokens := by
  rw [query_eq]
  rcases tokens_whereSql hclean with ⟨e, hsql, hconditions⟩ | ⟨sql, conditions, hsql,
    hconditions, htokens⟩
  · rw [hsql, hconditions]
    rfl
  · rw [hsql, hconditions]
    have hselect : exec .blank "SELECT ".toList = ([keyword "SELECT"], .blank) := by decide
    have hfrom : exec .blank "FROM ".toList = ([keyword "FROM"], .blank) := by decide
    show Except.ok (tokens _) = Except.ok _
    rw [tokens_of_blank hselect, tokens_append_blank hcolumns, tokens_of_blank hfrom, tokens_named,
      tokens_append_blank htokens, hother]
    simp [Statement.tokens]

end Whole

section Insert

variable {param : Fields} {tablename : Name}

theorem addValue_tokens {p : Name × Value}
    (hp : ∀ s, p.2 = .str s → if isFunc s then (tokens (funcText s)).isSome =
      true else clean s = true) :
    tokens (addValue p) = some (addOperand p).2.tokens := by
  obtain ⟨k, v⟩ := p
  cases v with
  | num n =>
      show tokens (if k.text = "id".toList ∧ n.isZero then "NULL".toList else n.text) =
        some (if k.text = "id".toList ∧ n.isZero then Operand.null else n.operand).tokens
      split_ifs
      · exact tokens_name (by decide)
      · exact tokens_number n
  | str s =>
      have hs := hp s rfl
      show tokens (if isFunc s then funcText s else "'".toList ++ s ++ "'".toList) =
        some (if isFunc s then Operand.expression ((tokens (funcText s)).getD []) else
          .literal s).tokens
      split_ifs at hs ⊢
      · obtain ⟨ts, hts⟩ := Option.isSome_iff_exists.1 hs
        rw [hts]
        rfl
      · exact tokens_quoted hs

/-- The two arrays of `add` grow side by side. -/
theorem foldl_arrays (param : Fields) (arrays : List Text × List Text) :
    param.foldl (fun arrays p => (pushComma arrays.1 ++ ["`".toList ++ p.1.text ++ "`".toList],
      pushComma arrays.2 ++ [addValue p])) arrays =
      (param.foldl
        (fun array p => pushComma array ++ ["`".toList ++ p.1.text ++ "`".toList]) arrays.1,
        param.foldl (fun array p => pushComma array ++ [addValue p]) arrays.2) := by
  induction param generalizing arrays with
  | nil => rfl
  | cons p param ih => rw [List.foldl_cons, ih, List.foldl_cons, List.foldl_cons]

theorem flatten_singletons (f : Name × Value → Text) (param : Fields) :
    (param.foldl (fun array p => pushComma array ++ [f p]) []).flatten = joined ",".toList
    (param.map f) := by
  have hloop := @flatten_pushComma (param.map fun p => [f p]) fun ps hps => by
    obtain ⟨p, -, rfl⟩ := List.mem_map.1 hps
    exact List.cons_ne_nil _ _
  have hsame : (param.map (List.flatten ∘ fun p => [f p])) = param.map f := by
    simp [Function.comp_def]
  rw [List.foldl_map, List.map_map, hsame] at hloop
  exact hloop

theorem add_eq (tablename : Name) (param : Fields) :
    add tablename param = "insert into ".toList ++ (tablename.text ++ '(' ::
      (joined ",".toList (param.map fun p => "`".toList ++ p.1.text ++ "`".toList) ++ ')' :: ' ' ::
        ("values".toList ++ '(' :: (joined ",".toList (param.map addValue) ++ [')'])))) := by
  have hvalues : ") values(".toList = ')' :: ' ' :: ("values".toList ++ ['(']) := rfl
  unfold add
  rw [foldl_arrays]
  show "insert into ".toList ++ tablename.text ++ "(".toList ++ _ ++ ") values(".toList ++ _ ++
    ")".toList = _
  rw [flatten_singletons, flatten_singletons, hvalues]
  simp only [List.append_assoc, List.cons_append, List.nil_append]
  rfl

/-- **`add`** is read as it is meant. -/
theorem tokens_add (tablename : Name) (hclean : CleanForAdd param) :
    tokens (add tablename param) =
    some (Statement.insert tablename (param.map addOperand)).tokens := by
  have hinsert : exec .blank "insert into ".toList =
    ([keyword "insert", keyword "into"], .blank) := by decide
  have hcolumns :
      tokens (joined ",".toList (param.map fun p => "`".toList ++ p.1.text ++ "`".toList)) =
      some (joined [.symbol ','] ((param.map addOperand).map fun p => [.name p.1.text])) := by
    refine tokens_joined (by decide) tokens_comma ?_
    rw [List.map_map, List.forall₂_map_left_iff, List.forall₂_map_right_iff, List.forall₂_same]
    intro p _
    have hname : (addOperand p).1 = p.1 := by
      unfold addOperand
      split <;> rfl
    rw [Function.comp_apply, hname]
    exact tokens_backtick p.1.named
  have hvalues : tokens (joined ",".toList (param.map addValue)) =
      some (joined [.symbol ','] ((param.map addOperand).map fun p => p.2.tokens)) := by
    refine tokens_joined (by decide) tokens_comma ?_
    rw [List.map_map, List.forall₂_map_left_iff, List.forall₂_map_right_iff, List.forall₂_same]
    exact fun p hp => addValue_tokens (hclean p hp)
  rw [add_eq, tokens_of_blank hinsert, tokens_append (tokens_name tablename.named) (by decide),
    tokens_symbol (by decide), tokens_append hcolumns (by decide), tokens_symbol (by decide),
    tokens_space (by decide), tokens_append (tokens_name (by decide)) (by decide),
      tokens_symbol (by decide),
    tokens_append hvalues (by decide), tokens_symbol (by decide), tokens_nil]
  simp [Statement.tokens, keyword]

end Insert

section Meant

def name (s : String) (h : isName s.toList = true) : Name := ⟨s.toList, h⟩

/-- Nothing is escaped: a condition on a string is read as it is meant just when the string is
clean. -/
theorem tokens_del_string_iff (tablename k : Name) (s : Text) :
    tokens (del tablename (some [(k, .str s)])) =
        some (Statement.delete tablename [(k, .literal s)]).tokens ↔
      clean s = true := by
  refine ⟨fun hread => ?_, fun hs => tokens_del tablename fun p hp s' hs' => ?_⟩
  · have hdelete : exec .blank "DELETE from ".toList =
        ([keyword "DELETE", keyword "from"], .blank) := by
      decide
    have hwhere := @tokens_keyword "WHERE".toList (by decide)
      (k.text ++ '=' :: (Quote.single.char :: (s ++ [Quote.single.char])))
    have hassign : tokens (k.text ++ '=' :: (Quote.single.char :: (s ++ [Quote.single.char]))) =
        ((tokens (Quote.single.char :: (s ++ [Quote.single.char]))).map (.symbol '=' :: ·)).map
          ([.word k.text] ++ ·) := by
      rw [tokens_append (tokens_name k.named) (by decide), tokens_symbol (by decide)]
    rw [hassign] at hwhere
    have htext : whereText ([(k, .str s)].map fun p : Name × Value => (pairElements p).flatten) =
        "WHERE".toList ++ ' ' ::
          (k.text ++ '=' :: (Quote.single.char :: (s ++ [Quote.single.char]))) := by
      show "WHERE ".toList ++ (k.text ++ _ ++ []) = _
      rw [List.append_nil]
      rfl
    change tokens ("DELETE from ".toList ++ tablename.text ++ " ".toList ++
      (concatWhere [(k, .str s)]).flatten) = _ at hread
    rw [List.append_assoc, List.append_assoc, tokens_of_blank hdelete, tokens_named,
      flatten_concatWhere, htext, hwhere] at hread
    rw [← tokens_literal_iff]
    cases hliteral : tokens (Quote.single.char :: (s ++ [Quote.single.char])) with
    | none => simp [hliteral] at hread
    | some ts =>
        simp [hliteral, Statement.tokens, whereTokens, joined, assignment, Operand.tokens,
          keyword] at hread
        rw [hread]
  · rw [List.mem_singleton] at hp
    subst hp
    cases hs'
    exact hs

/-- What begins with `func:` is no literal, and a zero `id` is none. -/
theorem add_not_meant :
    tokens (add (name "d_user" (by decide)) [(name "id" (by decide), .num (.int 0)),
        (name "created" (by decide), .str "func:NOW()".toList)]) =
        some [keyword "insert", keyword "into", keyword "d_user", .symbol '(', .name "id".toList,
          .symbol ',', .name "created".toList, .symbol ')', keyword "values", .symbol '(',
          keyword "NULL", .symbol ',', keyword "NOW", .symbol '(', .symbol ')', .symbol ')'] ∧
      ¬∀ tablename param, tokens (add tablename param) =
        some (Statement.insert tablename (operands param)).tokens := by
  have hread : tokens (add (name "d_user" (by decide)) [(name "id" (by decide), .num (.int 0)),
      (name "created" (by decide), .str "func:NOW()".toList)]) =
        some [keyword "insert", keyword "into", keyword "d_user", .symbol '(', .name "id".toList,
          .symbol ',', .name "created".toList, .symbol ')', keyword "values", .symbol '(',
          keyword "NULL", .symbol ',', keyword "NOW", .symbol '(', .symbol ')', .symbol ')'] := by
    decide
  refine ⟨hread, fun hall => ?_⟩
  rw [hall] at hread
  revert hread
  decide

/-- **The statements are read as they are meant** when no string has a quote, nor a backslash in
front of another character than a wildcard. In `add` a string that begins with `func:` stands for
SQL, and a zero `id` for NULL; in `count` and `query` a float is written as an integer, or it
raises. -/
theorem statements_meant (tablename : Name) {param fields conditions : Fields}
    {columns other : Option Text}
    {cs os : List Token} (hparam : CleanForAdd param) (hfields : Clean fields)
    (hconditions : Clean conditions)
    (hcolumns : tokens (columns.getD "*".toList) = some cs)
    (hother : tokens (other.getD "limit 1000".toList) = some os) :
    tokens (add tablename param) = some (Statement.insert tablename (param.map addOperand)).tokens ∧
      (update tablename (some fields) (some conditions)).map tokens =
        some (some (Statement.update tablename (operands fields) (operands conditions)).tokens) ∧
      tokens (del tablename (some conditions)) =
      some (Statement.delete tablename (operands conditions)).tokens ∧
      (query tablename (.table conditions) columns other).map tokens =
        ((conditions.mapM formatOperand).map
          fun ops => some (Statement.select cs tablename ops os).tokens) ∧
      (count tablename (.table conditions)).map tokens =
        ((conditions.mapM formatOperand).map
          fun ops => some (Statement.count tablename ops).tokens) :=
  ⟨tokens_add tablename hparam, tokens_update tablename hfields hconditions,
    tokens_del tablename hconditions,
    tokens_query tablename hconditions hcolumns hother, tokens_count tablename hconditions⟩

def userTable : Name := name "d_user" (by decide)

/-- A new user: the database gives the `id` and the time. -/
def newUser : Fields :=
  [(name "id" (by decide), .num (.int 0)), (name "nick" (by decide), .str "100\\%; --".toList),
    (name "created" (by decide), .str "func:NOW()".toList)]

/-- A rate of one and a half. -/
def halfMore : LuaFloat where
  negative := false
  whole := ['1']
  fraction := ['5']
  exponent := none
  integer := none
  whole_ne_nil := by decide
  whole_digits := List.forall_mem_singleton.2 rfl
  fraction_digits := List.forall_mem_singleton.2 rfl
  exponent_digits := by simp
  real := by decide

def newRate : Fields := [(name "rate" (by decide), .num (.float halfMore))]

def oneUser : Fields :=
  [(name "id" (by decide), .num (.int (-5))), (name "nick" (by decide), .str "x".toList)]

theorem statements_meant_user :
    tokens (add userTable newUser) =
    some (Statement.insert userTable (newUser.map addOperand)).tokens ∧
      (update userTable (some newRate) (some oneUser)).map tokens =
        some (some (Statement.update userTable (operands newRate) (operands oneUser)).tokens) ∧
      tokens (del userTable (some oneUser)) =
      some (Statement.delete userTable (operands oneUser)).tokens ∧
      (query userTable (.table oneUser) none none).map tokens =
        ((oneUser.mapM formatOperand).map
          fun ops => some (Statement.select [.symbol '*'] userTable ops
          [keyword "limit", .number 1000]).tokens) ∧
      (count userTable (.table oneUser)).map tokens =
        ((oneUser.mapM formatOperand).map
          fun ops => some (Statement.count userTable ops).tokens) := by
  have hparam : CleanForAdd newUser := by
    intro p hp s hs
    simp only [newUser, List.mem_cons, List.not_mem_nil, or_false] at hp
    rcases hp with rfl | rfl | rfl
    · cases hs
    · cases hs
      decide
    · cases hs
      decide
  have hfields : Clean newRate := by
    intro p hp s hs
    rw [newRate, List.mem_singleton] at hp
    subst hp
    cases hs
  have hconditions : Clean oneUser := by
    intro p hp s hs
    simp only [oneUser, List.mem_cons, List.not_mem_nil, or_false] at hp
    rcases hp with rfl | rfl
    · cases hs
    · cases hs
      decide
  exact statements_meant userTable hparam hfields hconditions (by decide) (by decide)

end Meant

end SdyServer.DbMgr
