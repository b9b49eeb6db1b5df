import Mathlib.Data.List.Basic

/-!
# Tokens of SQL

A text is read from the left by an automaton that does not look ahead. Names, keywords and numbers
go as far as they can; a quoted text goes up to a quote that is not doubled and, in a literal, does
not follow a backslash. A text that ends inside quotes has no tokens, and neither has one with a
comment.

Texts that have tokens of their own are put together at separators.
-/

namespace Sql

abbrev Text := List Char

inductive Token where
  | word (w : Text)
  | name (w : Text)
  | literal (s : Text)
  | number (n : Nat)
  | real (w : Text)
  | symbol (c : Char)
deriving DecidableEq, Repr

inductive Quote where
  | single
  | double
  | back
deriving DecidableEq, Repr

/-- What is being read, with the part that was read. -/
inductive Mode where
  | blank
  | word (w : Text)
  | whole (w : Text)
  | fraction (w : Text)
  | exponent (w : Text)
  | scaled (w : Text)
  | symbol (c : Char)
  | quoted (q : Quote) (s : Text)
  | escaped (q : Quote) (s : Text)
  | ended (q : Quote) (s : Text)
  | comment
deriving DecidableEq, Repr

def Quote.char : Quote → Char
  | .single => Char.ofNat 39
  | .double => Char.ofNat 34
  | .back => Char.ofNat 96

def backslash : Char := Char.ofNat 92

section Automaton

def isSpace (c : Char) : Bool := c.toNat ∈ [9, 10, 11, 12, 13, 32]

/-- The characters of names and keywords. -/
def isWord (c : Char) : Bool := c.isAlphanum || c == '_' || c == '$' || decide (128 ≤ c.toNat)

/-- What stands for a character behind a backslash. Before the wildcards the backslash stays. -/
def unescape (c : Char) : Text :=
  if c = '0' then [Char.ofNat 0]
  else if c = 'b' then [Char.ofNat 8]
  else if c = 't' then [Char.ofNat 9]
  else if c = 'n' then [Char.ofNat 10]
  else if c = 'r' then [Char.ofNat 13]
  else if c = 'Z' then [Char.ofNat 26]
  else if c = '%' ∨ c = '_' then [backslash, c]
  else [c]

/-- The first character of a token. -/
def start (c : Char) : Mode :=
  if isSpace c then .blank
  else if c = Quote.single.char then .quoted .single []
  else if c = Quote.double.char then .quoted .double []
  else if c = Quote.back.char then .quoted .back []
  else if c.isDigit then .whole [c]
  else if isWord c then .word [c]
  else if c = '#' then .comment
  else .symbol c

/-- A character that goes on with what is being read. -/
def Mode.extend : Mode → Char → Option Mode
  | .blank, _ => none
  | .word w, c => if isWord c then some (.word (w ++ [c])) else none
  | .whole w, c =>
      if c.isDigit then some (.whole (w ++ [c]))
      else if c = '.' then some (.fraction (w ++ [c]))
      else if c = 'e' ∨ c = 'E' then some (.exponent (w ++ [c]))
      else if isWord c then some (.word (w ++ [c]))
      else none
  | .fraction w, c =>
      if c.isDigit then some (.fraction (w ++ [c]))
      else if c = 'e' ∨ c = 'E' then some (.exponent (w ++ [c]))
      else none
  | .exponent w, c =>
      if c.isDigit ∨ c = '+' ∨ c = '-' then some (.scaled (w ++ [c]))
      else if isWord c then some (.word (w ++ [c]))
      else none
  | .scaled w, c => if c.isDigit then some (.scaled (w ++ [c])) else none
  | .symbol d, c => if (d = '-' ∧ c = '-') ∨ (d = '/' ∧ c = '*') then some .comment else none
  | .quoted q s, c =>
      if c = q.char then some (.ended q s)
      else if c = backslash ∧ q ≠ .back then some (.escaped q s)
      else some (.quoted q (s ++ [c]))
  | .escaped q s, c => some (.quoted q (s ++ unescape c))
  | .ended q s, c => if c = q.char then some (.quoted q (s ++ [c])) else none
  | .comment, _ => some .comment

/-- The number that digits write. -/
def readNumber (w : Text) : Nat := w.foldl (fun n c => 10 * n + (c.toNat - '0'.toNat)) 0

/-- The tokens of what was read, when it ends here. -/
def Mode.close : Mode → Option (List Token)
  | .blank => some []
  | .word w => some [.word w]
  | .whole w => some [.number (readNumber w)]
  | .fraction w => some [.real w]
  | .exponent w => some [.word w]
  | .scaled w => some [.real w]
  | .symbol c => some [.symbol c]
  | .ended q s => some [if q = .back then .name s else .literal s]
  | .quoted _ _ => none
  | .escaped _ _ => none
  | .comment => none

def exec : Mode → Text → List Token × Mode
  | m, [] => ([], m)
  | m, c :: rest =>
      match m.extend c with
      | some m' => exec m' rest
      | none => (m.close.getD [] ++ (exec (start c) rest).1, (exec (start c) rest).2)

/-- The tokens of a text. -/
def tokens (s : Text) : Option (List Token) := (exec .blank s).2.close.map ((exec .blank s).1 ++ ·)

end Automaton

section Composition

variable {m m' : Mode} {s r : Text} {c : Char} {ts : List Token}

theorem exec_extend (h : m.extend c = some m') : exec m (c :: r) = exec m' r := by
  rw [exec, h]

theorem exec_start (c : Char) (r : Text) : exec .blank (c :: r) = exec (start c) r := by
  rw [exec]
  rfl

/-- Where a token ends, the next one is read as if it were the first. -/
theorem exec_break (h : m.extend c = none) :
    exec m (c :: r) = (m.close.getD [] ++ (exec .blank (c :: r)).1, (exec .blank (c :: r)).2) := by
  rw [exec, h, exec_start]

theorem exec_append (m : Mode) (s r : Text) :
    exec m (s ++ r) = ((exec m s).1 ++ (exec (exec m s).2 r).1, (exec (exec m s).2 r).2) := by
  induction s generalizing m with
  | nil => rfl
  | cons c rest ih =>
      rw [List.cons_append]
      cases h : m.extend c with
      | some m' => rw [exec_extend h, exec_extend h, ih]
      | none =>
          rw [exec, exec, h]
          dsimp only
          rw [ih, List.append_assoc]

theorem exec_append_of (h : exec m s = ([], m')) : exec m (s ++ r) = exec m' r := by
  rw [exec_append, h, List.nil_append]

theorem tokens_of_exec (h : exec .blank s = ([], m)) : tokens s = m.close := by
  rw [tokens, h]
  exact Option.map_id'

/-- The characters that end every token but a quoted one. -/
def separator (c : Char) : Bool := c ∈ [' ', '(', ')', ',', '=']

theorem extend_separator (hc : separator c = true) (hm : m.close.isSome = true) :
    m.extend c = none := by
  have hplain : isWord c = false ∧ c.isDigit = false ∧ (∀ q : Quote, c ≠ q.char) ∧
      c ∉ ['.', 'e', 'E', '+', '-', '*'] := by
    simp only [separator, List.mem_cons, List.not_mem_nil, or_false, decide_eq_true_eq] at hc
    rcases hc with rfl | rfl | rfl | rfl | rfl <;>
      exact ⟨by decide, by decide, by rintro (_ | _ | _) <;> decide, by decide⟩
  obtain ⟨hword, hdigit, hquote, hother⟩ := hplain
  simp only [List.mem_cons, List.not_mem_nil, or_false, not_or] at hother
  cases m with
  | quoted q s => cases hm
  | escaped q s => cases hm
  | comment => cases hm
  | _ => simp [Mode.extend, hword, hdigit, hquote, hother]

/-- Two texts with tokens of their own, where the second begins with a separator. -/
theorem tokens_append (hs : tokens s = some ts) (hc : separator c = true) :
    tokens (s ++ c :: r) = (tokens (c :: r)).map (ts ++ ·) := by
  obtain ⟨us, hclose, rfl⟩ := Option.map_eq_some_iff.1 hs
  have hbreak := exec_break (r := r) (extend_separator hc (by rw [hclose]; rfl))
  rw [tokens, exec_append, hbreak, hclose, tokens, Option.map_map]
  congr 1
  funext vs
  simp [List.append_assoc]

/-- A text that ends between two tokens. -/
theorem tokens_of_blank (h : exec .blank s = (ts, .blank)) (r : Text) :
    tokens (s ++ r) = (tokens r).map (ts ++ ·) := by
  rw [tokens, exec_append, h, tokens, Option.map_map]
  congr 1
  funext us
  exact List.append_assoc ..

@[simp]
theorem tokens_nil : tokens [] = some [] := rfl

theorem tokens_space (hc : isSpace c = true) (r : Text) : tokens (c :: r) = tokens r := by
  rw [tokens, exec_start, start, if_pos hc, tokens]

/-- A separator is a token of its own, unless it is a blank. -/
theorem tokens_symbol (hc : c ∈ ['(', ')', ',', '=']) (r : Text) :
    tokens (c :: r) = (tokens r).map (.symbol c :: ·) := by
  have hstart : start c = .symbol c := by
    simp only [List.mem_cons, List.not_mem_nil, or_false] at hc
    rcases hc with rfl | rfl | rfl | rfl <;> rfl
  rw [tokens, exec_start, hstart]
  cases r with
  | nil => rfl
  | cons d rest =>
      have hbreak : (Mode.symbol c).extend d = none := by
        simp only [List.mem_cons, List.not_mem_nil, or_false] at hc
        rw [Mode.extend, if_neg]
        rintro (⟨rfl, -⟩ | ⟨rfl, -⟩)
        · revert hc; decide
        · revert hc; decide
      rw [exec_break hbreak, tokens, Option.map_map]
      rfl

end Composition

section Joins

variable {c : Char} {sep : Text} {sepTokens : List Token}

/-- Parts with something between them. -/
def joined {α : Type*} (sep : List α) : List (List α) → List α
  | [] => []
  | x :: xs => x ++ xs.flatMap (sep ++ ·)

theorem tokens_joined (hc : separator c = true)
    (hsep : ∀ r, tokens (c :: (sep ++ r)) = (tokens r).map (sepTokens ++ ·)) {parts : List Text}
    {partTokens : List (List Token)}
    (hparts : List.Forall₂ (fun s ts => tokens s = some ts) parts partTokens) :
    tokens (joined (c :: sep) parts) = some (joined sepTokens partTokens) := by
  cases hparts with
  | nil => rfl
  | @cons s ts parts partTokens hs hparts =>
      rw [joined, joined]
      -- what stands behind a part is nothing, or it begins with the separator
      induction hparts generalizing s ts with
      | nil => rw [List.flatMap_nil, List.flatMap_nil, List.append_nil, List.append_nil, hs]
      | @cons s' ts' parts partTokens hs' _ ih =>
          rw [List.flatMap_cons, List.flatMap_cons, List.append_assoc, List.cons_append,
            tokens_append hs hc, hsep,
            ih hs', Option.map_some, Option.map_some, List.append_assoc]

end Joins

section Words

variable {s w : Text} {c : Char}

/-- A text that is one name or keyword. -/
def isName : Text → Bool
  | [] => false
  | c :: rest => isWord c && !c.isDigit && rest.all isWord

theorem start_of_isWord (hc : isWord c = true) :
    start c = if c.isDigit then .whole [c] else .word [c] := by
  have hascii : ∀ n : Fin 128, isWord (Char.ofNat n) = true →
      start (Char.ofNat n) = if (Char.ofNat n).isDigit then .whole [Char.ofNat n] else .word
          [Char.ofNat n] := by
    decide
  by_cases hsmall : c.toNat < 128
  · have := hascii ⟨c.toNat, hsmall⟩
    rw [Char.ofNat_toNat] at this
    exact this hc
  · have hne : ∀ d : Char, d.toNat < 128 → c ≠ d := by
      rintro d hd rfl
      exact hsmall hd
    have hspace : isSpace c = false := by
      simp only [isSpace, List.mem_cons, List.not_mem_nil, or_false, decide_eq_false_iff_not]
      omega
    rw [start, hspace, if_neg (by decide), if_neg (hne _ (by decide)), if_neg (hne _ (by decide)),
      if_neg (hne _ (by decide)), if_pos hc]

theorem isWord_of_isDigit (hc : c.isDigit = true) : isWord c = true := by
  simp [isWord, Char.isAlphanum, hc]

theorem start_of_isDigit (hc : c.isDigit = true) : start c = .whole [c] := by
  rw [start_of_isWord (isWord_of_isDigit hc), if_pos hc]

theorem exec_word (hs : s.all isWord = true) : exec (.word w) s = ([], .word (w ++ s)) := by
  induction s generalizing w with
  | nil => rw [exec, List.append_nil]
  | cons c rest ih =>
      rw [List.all_cons, Bool.and_eq_true] at hs
      have hc : (Mode.word w).extend c = some (.word (w ++ [c])) := if_pos hs.1
      rw [exec_extend hc, ih hs.2, List.append_assoc]
      rfl

theorem tokens_name (hs : isName s = true) : tokens s = some [.word s] := by
  match s, hs with
  | c :: rest, hs =>
      simp only [isName, Bool.and_eq_true, Bool.not_eq_true'] at hs
      obtain ⟨⟨hword, hdigit⟩, hrest⟩ := hs
      have hexec : exec .blank (c :: rest) = ([], .word (c :: rest)) := by
        rw [exec_start, start_of_isWord hword, hdigit, if_neg (by decide), exec_word hrest]
        rfl
      exact tokens_of_exec hexec

end Words

section Numbers

variable {s w : Text} {m : Text → Mode}

/-- Digits go on with a number. -/
theorem exec_digits (hm : ∀ w c, c.isDigit = true → (m w).extend c = some (m (w ++ [c])))
    (hs : ∀ c ∈ s, c.isDigit = true) : exec (m w) s = ([], m (w ++ s)) := by
  induction s generalizing w with
  | nil => rw [exec, List.append_nil]
  | cons c rest ih =>
      rw [List.forall_mem_cons] at hs
      rw [exec_extend (hm w c hs.1), ih hs.2, List.append_assoc]
      rfl

theorem exec_whole (hne : s ≠ []) (hs : ∀ c ∈ s, c.isDigit = true) :
    exec .blank s = ([], .whole s) := by
  match s, hne, hs with
  | c :: rest, _, hs =>
      rw [List.forall_mem_cons] at hs
      rw [exec_start, start_of_isDigit hs.1, @exec_digits _ _ Mode.whole
        (fun w c hc => if_pos hc) hs.2]
      rfl

/-- The digits of a number. -/
def decimal (n : Nat) : Text := Nat.toDigits 10 n

theorem decimal_ne_nil (n : Nat) : decimal n ≠ [] := Nat.toDigits_ne_nil

theorem isDigit_decimal (n : Nat) : ∀ c ∈ decimal n, c.isDigit = true := fun _ hc =>
  Nat.isDigit_of_mem_toDigits (by decide) (by decide) hc

theorem readNumber_decimal (n : Nat) : readNumber (decimal n) = n := by
  have hread := @Nat.ofDigitChars_ten_toDigits n
  rwa [Nat.ofDigitChars_eq_foldl] at hread

theorem tokens_decimal (n : Nat) : tokens (decimal n) = some [.number n] := by
  rw [tokens_of_exec (exec_whole (decimal_ne_nil n) (isDigit_decimal n)), Mode.close,
    readNumber_decimal]

/-- The part of a real number behind its digits: a point with digits, and an exponent. -/
def realTail (fraction : Text) (exponent : Option (Char × Text)) : Text :=
  (if fraction = [] then [] else '.' :: fraction) ++
    match exponent with
    | none => []
    | some (sign, digits) => 'e' :: sign :: digits

theorem tokens_real {fraction : Text} {exponent : Option (Char × Text)} (hne : w ≠ [])
    (hw : ∀ c ∈ w, c.isDigit = true) (hfraction : ∀ c ∈ fraction, c.isDigit = true)
    (hexponent : ∀ e ∈ exponent, (e.1 = '+' ∨ e.1 = '-') ∧ ∀ c ∈ e.2, c.isDigit = true)
    (hreal : fraction ≠ [] ∨ exponent.isSome = true) :
    tokens (w ++ realTail fraction exponent) = some [.real (w ++ realTail fraction exponent)] := by
  -- the digits behind the point
  have hpoint : ∃ m, exec .blank (w ++ if fraction = [] then [] else '.' :: fraction) = ([], m) ∧
      m.extend 'e' =
        some (.exponent ((w ++ if fraction = [] then [] else '.' :: fraction) ++ ['e'])) ∧
        (fraction ≠ [] →
            m.close = some [.real (w ++ if fraction = [] then [] else '.' :: fraction)]) := by
    split_ifs with hnil
    · rw [List.append_nil]
      exact ⟨.whole w, exec_whole hne hw, rfl, fun h => absurd hnil h⟩
    · refine ⟨.fraction (w ++ '.' :: fraction), ?_, rfl, fun _ => rfl⟩
      have hdot : (Mode.whole w).extend '.' = some (.fraction (w ++ ['.'])) := rfl
      rw [exec_append_of (exec_whole hne hw), exec_extend hdot,
        @exec_digits _ _ Mode.fraction (fun w c hc => if_pos hc) hfraction, List.append_assoc]
      rfl
  obtain ⟨m, hexec, hexp, hclose⟩ := hpoint
  unfold realTail
  rw [← List.append_assoc]
  cases exponent with
  | none =>
      rw [List.append_nil, tokens_of_exec hexec]
      exact hclose (hreal.resolve_right (by simp))
  | some e =>
      obtain ⟨sign, digits⟩ := e
      obtain ⟨hsign, hdigits⟩ := hexponent _ rfl
      have hsigned : ∀ v, (Mode.exponent v).extend sign = some (.scaled (v ++ [sign])) := fun v =>
        if_pos (.inr hsign)
      dsimp only
      have hall := exec_append_of (r := 'e' :: sign :: digits) hexec
      rw [exec_extend hexp, exec_extend (hsigned _),
        @exec_digits _ _ Mode.scaled (fun w c hc => if_pos hc) hdigits] at hall
      rw [tokens_of_exec hall, Mode.close]
      simp

/-- A number below zero. -/
theorem tokens_minus (c : Char) (r : Text) (hc : c.isDigit = true) :
    tokens ('-' :: c :: r) = (tokens (c :: r)).map (.symbol '-' :: ·) := by
  have hstart : start '-' = .symbol '-' := rfl
  have hbreak : (Mode.symbol '-').extend c = none := by
    rw [Mode.extend, if_neg]
    rintro (⟨-, rfl⟩ | ⟨h, -⟩)
    · cases hc
    · exact absurd h (by decide)
  rw [tokens, exec_start, hstart, exec_break hbreak, tokens, Option.map_map]
  rfl

end Numbers

section Quotes

variable {q : Quote} {s acc : Text}

/-- A text that a literal holds as it stands: without quotes, and with backslashes only where they
stay. -/
def clean : Text → Bool
  | [] => true
  | [c] => c != Quote.single.char && c != backslash
  | c :: d :: rest =>
      if c = backslash then (d == '%' || d == '_') && clean rest
      else c != Quote.single.char && clean (d :: rest)

theorem extend_quoted {c : Char} (hquote : c ≠ Quote.single.char) (hbackslash : c ≠ backslash) :
    (Mode.quoted .single acc).extend c = some (.quoted .single (acc ++ [c])) := by
  rw [Mode.extend, if_neg hquote, if_neg fun h => hbackslash h.1]

theorem exec_quoted (hs : clean s = true) :
    exec (.quoted .single acc) s = ([], .quoted .single (acc ++ s)) := by
  induction s using clean.induct generalizing acc with
  | case1 => rw [exec, List.append_nil]
  | case2 c =>
      simp only [clean, Bool.and_eq_true, bne_iff_ne] at hs
      rw [exec_extend (extend_quoted hs.1 hs.2)]
      rfl
  | case3 d rest ih =>
      simp only [clean, if_true, Bool.and_eq_true, Bool.or_eq_true, beq_iff_eq] at hs
      obtain ⟨hd, hrest⟩ := hs
      have hescape : (Mode.quoted .single acc).extend backslash = some (.escaped .single acc) := rfl
      have hkeep : (Mode.escaped .single acc).extend d =
          some (.quoted .single (acc ++ [backslash, d])) := by
        rcases hd with rfl | rfl <;> rfl
      rw [exec_extend hescape, exec_extend hkeep, ih hrest, List.append_assoc]
      rfl
  | case4 c d rest hc ih =>
      simp only [clean, if_neg hc, Bool.and_eq_true, bne_iff_ne] at hs
      rw [exec_extend (extend_quoted hs.1 hc), ih hs.2, List.append_assoc]
      rfl

theorem tokens_literal (hs : clean s = true) :
    tokens (Quote.single.char :: (s ++ [Quote.single.char])) = some [.literal s] := by
  have hend : (Mode.quoted .single s).extend Quote.single.char = some (.ended .single s) := rfl
  have hexec := exec_append_of (r := [Quote.single.char]) (@exec_quoted s [] hs)
  rw [List.nil_append, exec_extend hend] at hexec
  have hstart : start Quote.single.char = .quoted .single [] := rfl
  rw [← hstart, ← exec_start] at hexec
  exact tokens_of_exec hexec

/-- What a mode and a text behind it come to. -/
def tokensFrom (m : Mode) (s : Text) : Option (List Token) :=
  (exec m s).2.close.map ((exec m s).1 ++ ·)

theorem tokensFrom_extend {m m' : Mode} {c : Char} {r : Text} (h : m.extend c = some m') :
    tokensFrom m (c :: r) = tokensFrom m' r := by
  rw [tokensFrom, exec_extend h, tokensFrom]

theorem length_unescape (c : Char) :
    (unescape c).length ≤ 2 ∧ (c ≠ '%' → c ≠ '_' → (unescape c).length = 1) := by
  unfold unescape
  split_ifs with h0 h1 h2 h3 h4 h5 h6
  · exact ⟨by decide, fun _ _ => rfl⟩
  · exact ⟨by decide, fun _ _ => rfl⟩
  · exact ⟨by decide, fun _ _ => rfl⟩
  · exact ⟨by decide, fun _ _ => rfl⟩
  · exact ⟨by decide, fun _ _ => rfl⟩
  · exact ⟨by decide, fun _ _ => rfl⟩
  · exact ⟨Nat.le_refl 2, fun hpercent hunderscore => absurd h6 (by simp [hpercent, hunderscore])⟩
  · exact ⟨by simp, fun _ _ => rfl⟩

/-- The quote that ends a literal is not in it: a literal is shorter than what it is read from. -/
theorem length_first_literal (r acc w : Text) (us : List Token) :
    (tokensFrom (.quoted .single acc) r = some (.literal w :: us) → w.length + 1 ≤
      acc.length + r.length) ∧
      (tokensFrom (.escaped .single acc) r = some (.literal w :: us) →
        w.length ≤ acc.length + r.length) ∧
        (tokensFrom (.ended .single acc) r = some (.literal w :: us) →
          w = acc ∨ w.length + 1 ≤ acc.length + r.length) := by
  induction r generalizing acc with
  | nil =>
      refine ⟨fun h => ?_, fun h => ?_, fun h => .inl ?_⟩
      · cases h
      · cases h
      · exact (Token.literal.inj (List.cons.inj (Option.some.inj h)).1).symm
  | cons c rest ih =>
      rw [List.length_cons]
      refine ⟨fun h => ?_, fun h => ?_, fun h => ?_⟩
      · by_cases hquote : c = Quote.single.char
        · have hend : (Mode.quoted .single acc).extend c = some (.ended .single acc) :=
            if_pos hquote
          rw [tokensFrom_extend hend] at h
          rcases (ih acc).2.2 h with rfl | hle <;> omega
        · by_cases hbackslash : c = backslash
          · have hescape : (Mode.quoted .single acc).extend c = some (.escaped .single acc) := by
              rw [Mode.extend, if_neg hquote, if_pos ⟨hbackslash, by decide⟩]
            rw [tokensFrom_extend hescape] at h
            have := (ih acc).2.1 h
            omega
          · rw [tokensFrom_extend (extend_quoted hquote hbackslash)] at h
            have := (ih _).1 h
            rw [List.length_append, List.length_singleton] at this
            omega
      · have hescaped : (Mode.escaped .single acc).extend c =
          some (.quoted .single (acc ++ unescape c)) := rfl
        rw [tokensFrom_extend hescaped] at h
        have hle := (ih _).1 h
        have hshort := (length_unescape c).1
        rw [List.length_append] at hle
        omega
      · by_cases hquote : c = Quote.single.char
        · have hdouble : (Mode.ended .single acc).extend c = some (.quoted .single (acc ++ [c])) :=
            if_pos hquote
          rw [tokensFrom_extend hdouble] at h
          have hle := (ih _).1 h
          rw [List.length_append, List.length_singleton] at hle
          exact .inr (by omega)
        · have hbreak : (Mode.ended .single acc).extend c = none := if_neg hquote
          rw [tokensFrom, exec_break hbreak] at h
          obtain ⟨vs, -, heq⟩ := Option.map_eq_some_iff.1 h
          exact .inl (Token.literal.inj (List.cons.inj heq).1).symm

/-- A text that is not clean comes back shorter, if it comes back at all. -/
theorem length_of_not_clean (hs : clean s = false) {w : Text} {us : List Token}
    (h : tokensFrom (.quoted .single acc) (s ++ [Quote.single.char]) = some (.literal w :: us)) :
    w.length < acc.length + s.length := by
  induction s using clean.induct generalizing acc with
  | case1 => cases hs
  | case2 c =>
      -- the quote behind the text is doubled or escaped, and the literal does not end
      have hc : c = Quote.single.char ∨ c = backslash := by
        by_contra! hne
        simp [clean, hne.1, hne.2] at hs
      rcases hc with rfl | rfl <;> cases h
  | case3 d rest ih =>
      have hescape : (Mode.quoted .single acc).extend backslash = some (.escaped .single acc) := rfl
      have hescaped : (Mode.escaped .single acc).extend d =
        some (.quoted .single (acc ++ unescape d)) := rfl
      rw [List.cons_append, List.cons_append, tokensFrom_extend hescape, tokensFrom_extend hescaped]
        at h
      rw [List.length_cons, List.length_cons]
      by_cases hd : d = '%' ∨ d = '_'
      · have hrest : clean rest = false := by
          rcases hd with rfl | rfl <;> simpa [clean] using hs
        have hlt := ih hrest h
        have hshort := (length_unescape d).1
        rw [List.length_append] at hlt
        omega
      · obtain ⟨hpercent, hunderscore⟩ := not_or.1 hd
        have hle := (length_first_literal _ _ _ _).1 h
        have hone := (length_unescape d).2 hpercent hunderscore
        rw [List.length_append, List.length_append, List.length_singleton, hone] at hle
        omega
  | case4 c d rest hc ih =>
      rw [List.length_cons]
      by_cases hquote : c = Quote.single.char
      · have hend : (Mode.quoted .single acc).extend c = some (.ended .single acc) := if_pos hquote
        rw [List.cons_append, tokensFrom_extend hend] at h
        rcases (length_first_literal _ _ _ _).2.2 h with rfl | hle
        · omega
        · rw [List.length_append, List.length_singleton] at hle
          omega
      · have hrest : clean (d :: rest) = false := by
          simpa [clean, hc, hquote] using hs
        rw [List.cons_append, tokensFrom_extend (extend_quoted hquote hc)] at h
        have hlt := ih hrest h
        rw [List.length_append, List.length_singleton] at hlt
        omega

/-- **The clean texts are those that a literal holds as they stand.** -/
theorem tokens_literal_iff :
    tokens (Quote.single.char :: (s ++ [Quote.single.char])) = some [.literal s] ↔
    clean s = true := by
  refine ⟨fun h => ?_, tokens_literal⟩
  by_contra hunclean
  have hstart : start Quote.single.char = .quoted .single [] := rfl
  rw [tokens, exec_start, hstart] at h
  have hlt := length_of_not_clean (Bool.eq_false_iff.2 hunclean) h
  rw [List.length_nil, Nat.zero_add] at hlt
  exact Nat.lt_irrefl _ hlt

theorem exec_backtick (hs : s.all isWord = true) :
    exec (.quoted .back acc) s = ([], .quoted .back (acc ++ s)) := by
  induction s generalizing acc with
  | nil => rw [exec, List.append_nil]
  | cons c rest ih =>
      rw [List.all_cons, Bool.and_eq_true] at hs
      have hne : c ≠ Quote.back.char := by
        rintro rfl
        exact absurd hs.1 (by decide)
      have hc : (Mode.quoted .back acc).extend c = some (.quoted .back (acc ++ [c])) := by
        rw [Mode.extend, if_neg hne, if_neg (by simp)]
      rw [exec_extend hc, ih hs.2, List.append_assoc]
      rfl

theorem tokens_backtick (hs : isName s = true) :
    tokens (Quote.back.char :: (s ++ [Quote.back.char])) = some [.name s] := by
  have hall : s.all isWord = true := by
    match s, hs with
    | c :: rest, hs =>
        simp only [isName, Bool.and_eq_true] at hs
        rw [List.all_cons, hs.1.1, hs.2]
        rfl
  have hend : (Mode.quoted .back s).extend Quote.back.char = some (.ended .back s) := rfl
  have hexec := exec_append_of (r := [Quote.back.char]) (@exec_backtick s [] hall)
  rw [List.nil_append, exec_extend hend] at hexec
  have hstart : start Quote.back.char = .quoted .back [] := rfl
  rw [← hstart, ← exec_start] at hexec
  exact tokens_of_exec hexec

end Quotes

end Sql
