import Mathlib.Data.List.DropRight
import SdyServer.Lib.Lua
import SdyServer.Lib.Tiles

/-!
# The length of a name

`utfstrlen` counts the characters of a trimmed text by their first bytes. The number of bytes that
are left is counted down by what a first byte announces, and the loop ends when it is zero. A number
below zero is taken as an index from the front.
-/

namespace SdyServer.Utf8

open Tiles

section Code

/-- `%s` of a pattern. -/
def isSpace (byte : UInt8) : Bool := byte = 32 ∨ (9 ≤ byte ∧ byte ≤ 13)

/-- `trim`: what the pattern keeps between the white space at both ends. -/
def trim (s : List UInt8) : List UInt8 := (s.dropWhile isSpace).rdropWhile isSpace

/-- `string.byte(str, i)`, from the end where `i` is below zero. -/
def stringByte (str : List UInt8) (i : Int) : Option UInt8 :=
  if 0 ≤ i then Lua.nth str i.toNat
  else if -i ≤ str.length then Lua.nth str (str.length + i + 1).toNat
  else none

/-- The first bytes from which on a character has one byte, two, and so on. -/
def arr : List UInt8 := [0, 0xc0, 0xe0, 0xf0, 0xf8, 0xfc]

/-- The inner loop: what is left after a first byte. -/
def leftAfter (tmp : UInt8) (left : Int) : Nat → Int
  | 0 => left
  | i + 1 =>
      match Lua.nth arr (i + 1) with
      | none => left
      | some least => if tmp ≥ least then left - (i + 1) else leftAfter tmp left i

/-- How many bytes a first byte announces. -/
def announced (tmp : UInt8) : Nat :=
  if tmp ≥ 0xfc then 6 else if tmp ≥ 0xf8 then 5 else if tmp ≥ 0xf0 then 4 else if tmp ≥ 0xe0 then 3
  else if tmp ≥ 0xc0 then 2 else 1

theorem leftAfter_eq (tmp : UInt8) (left : Int) :
    leftAfter tmp left arr.length = left - announced tmp := by
  have hzero : tmp ≥ 0 := UInt8.le_iff_toNat_le.2 (Nat.zero_le _)
  have hloop : leftAfter tmp left arr.length = if tmp ≥ 0xfc then left - 6 else if tmp ≥
      0xf8 then left - 5
      else if tmp ≥ 0xf0 then left - 4 else if tmp ≥ 0xe0 then left - 3 else if tmp ≥
        0xc0 then left - 2
      else if tmp ≥ 0 then left - 1 else left := rfl
  rw [hloop, if_pos hzero]
  unfold announced
  split_ifs <;> rfl

theorem announced_pos (tmp : UInt8) : 0 < announced tmp := by
  unfold announced
  split_ifs <;> decide

theorem bounds_of_stringByte {str : List UInt8} {i : Int} {tmp : UInt8}
    (h : stringByte str i = some tmp) :
    -str.length ≤ i ∧ i ≤ str.length := by
  unfold stringByte at h
  split_ifs at h with hpos hneg
  · have hbounds := Lua.nth_bounds h
    omega
  · omega

/-- The outer loop of `utfstrlen`. -/
def countFrom (str : List UInt8) (left : Int) (cnt : Nat) : Lua Nat :=
  if left = 0 then return cnt
  else
    match hbyte : stringByte str (-left) with
    | none => throw .compareNil
    | some tmp => countFrom str (leftAfter tmp left arr.length) (cnt + 1)
termination_by (left + str.length + 1).toNat
decreasing_by
  have hbounds := bounds_of_stringByte hbyte
  have hpos := announced_pos tmp
  rw [leftAfter_eq]
  omega

def utfstrlen (str : List UInt8) : Lua Nat := countFrom (trim str) (trim str).length 0

end Code

section Counting

variable {str s : List UInt8} {left : Int} {cnt n : Nat} {tiles : List (List UInt8)}

theorem countFrom_zero : countFrom str 0 cnt = .ok cnt := by
  rw [countFrom, if_pos rfl]
  rfl

theorem countFrom_none (hleft : left ≠ 0) (hbyte : stringByte str (-left) = none) :
    countFrom str left cnt = .error .compareNil := by
  rw [countFrom, if_neg hleft]
  split
  · rfl
  · next tmp htmp =>
      rw [hbyte] at htmp
      cases htmp

theorem countFrom_some {tmp : UInt8} (hleft : left ≠ 0)
    (hbyte : stringByte str (-left) = some tmp) :
    countFrom str left cnt = countFrom str (left - announced tmp) (cnt + 1) := by
  rw [countFrom, if_neg hleft]
  split
  · next hnone =>
      rw [hbyte] at hnone
      cases hnone
  · next tmp' htmp =>
      obtain rfl : tmp = tmp' := Option.some.inj (hbyte.symm.trans htmp)
      rw [leftAfter_eq]

/-- Below zero the index runs over the text from its front, and off its end. -/
theorem countFrom_negative (hleft : left < 0) : countFrom str left cnt = .error .compareNil := by
  induction hn : (left + str.length + 1).toNat using Nat.strong_induction_on generalizing
      left cnt with
  | _ n ih =>
      cases hbyte : stringByte str (-left) with
      | none => exact countFrom_none hleft.ne hbyte
      | some tmp =>
          have hbounds := bounds_of_stringByte hbyte
          have hpos := announced_pos tmp
          rw [countFrom_some hleft.ne hbyte]
          exact ih _ (by omega) (by omega) rfl

theorem stringByte_suffix (hs : s <:+ str) (hne : s ≠ []) :
    stringByte str (-(s.length : Int)) = s.head? := by
  obtain ⟨pre, rfl⟩ := hs
  have hpos := List.length_pos_of_ne_nil hne
  have hindex : (((pre ++ s).length : Int) + -(s.length : Int) + 1).toNat = pre.length + 1 := by
    rw [List.length_append]
    omega
  have hlong : -(-(s.length : Int)) ≤ (pre ++ s).length := by
    rw [List.length_append]
    omega
  rw [stringByte, if_neg (by omega), if_pos hlong, hindex, Lua.nth, if_neg (Nat.succ_ne_zero _),
    Nat.add_sub_cancel, List.getElem?_append_right (le_refl _), Nat.sub_self,
      List.head?_eq_getElem?]

/-- The loop counts the tiles of what is left, and raises where that cannot be cut. -/
theorem countFrom_suffix (hs : s <:+ str) :
    (∀ tiles, Tiling announced s tiles → countFrom str s.length cnt = .ok (cnt + tiles.length)) ∧
      ((¬∃ tiles, Tiling announced s tiles) → countFrom str s.length cnt = .error .compareNil) := by
  induction hn : s.length using Nat.strong_induction_on generalizing s cnt with
  | _ n ih =>
      cases s with
      | nil =>
          subst hn
          refine ⟨fun tiles htiles => ?_, fun hnone => absurd ⟨[], tiling_nil.2 rfl⟩ hnone⟩
          rw [tiling_nil.1 htiles]
          exact countFrom_zero
      | cons tmp rest =>
          have hbyte := stringByte_suffix hs (List.cons_ne_nil tmp rest)
          have hleft : ((tmp :: rest).length : Int) ≠ 0 := by
            rw [List.length_cons]
            omega
          have hpos := announced_pos tmp
          rw [← hn, countFrom_some hleft hbyte]
          by_cases hfits : announced tmp ≤ (tmp :: rest).length
          · have hdrop : ((tmp :: rest).length : Int) - announced tmp =
                (((tmp :: rest).drop (announced tmp)).length : Nat) := by
              rw [List.length_drop]
              omega
            have hshort : ((tmp :: rest).drop (announced tmp)).length < n := by
              rw [List.length_drop, ← hn]
              omega
            obtain ⟨hcount, hraise⟩ := @ih _ hshort ((tmp :: rest).drop (announced tmp)) (cnt + 1)
              ((List.drop_suffix _ _).trans hs) rfl
            rw [hdrop]
            constructor
            · intro tiles htiles
              obtain ⟨-, -, tiles', rfl, hrest⟩ := tiling_cons.1 htiles
              rw [hcount tiles' hrest, List.length_cons]
              congr 1
              omega
            · intro hnone
              refine hraise
                fun ⟨tiles, htiles⟩ => hnone ⟨_, tiling_cons.2 ⟨hpos, hfits, tiles, rfl, htiles⟩⟩
          · have hover : ((tmp :: rest).length : Int) - announced tmp < 0 := by omega
            rw [countFrom_negative hover]
            refine ⟨fun tiles htiles => absurd (tiling_cons.1 htiles).2.1 hfits, fun _ => rfl⟩

/-- **The number of tiles is returned**, and there is none otherwise. -/
theorem utfstrlen_eq_ok_iff : utfstrlen s = .ok n ↔ ∃ tiles, Tiling announced (trim s) tiles ∧
    tiles.length = n := by
  obtain ⟨hcount, hraise⟩ := @countFrom_suffix (trim s) (trim s) 0 (List.suffix_refl _)
  constructor
  · intro hn
    by_contra hnone
    by_cases htiling : ∃ tiles, Tiling announced (trim s) tiles
    · obtain ⟨tiles, htiles⟩ := htiling
      rw [utfstrlen, hcount tiles htiles, Nat.zero_add, Except.ok.injEq] at hn
      exact hnone ⟨tiles, htiles, hn⟩
    · rw [utfstrlen, hraise htiling] at hn
      cases hn
  · rintro ⟨tiles, htiles, rfl⟩
    rw [utfstrlen, hcount tiles htiles, Nat.zero_add]

end Counting

section Announces

variable {s : List UInt8}

/-- The text is made of pieces that are as long as their first bytes announce. -/
def Announces (s : List UInt8) : Prop := ∃ tiles, Tiling announced s tiles

/-- The first and the last byte are no white space. -/
def Trimmed (s : List UInt8) : Prop :=
  (∀ b ∈ s.head?, isSpace b = false) ∧ ∀ b ∈ s.getLast?, isSpace b = false

theorem trim_eq_self (htrimmed : Trimmed s) : trim s = s := by
  obtain ⟨hfirst, hlast⟩ := htrimmed
  have hdrop : s.dropWhile isSpace = s := by
    cases s with
    | nil => rfl
    | cons b rest => exact List.dropWhile_cons_of_neg (by simp [hfirst b rfl])
  rw [trim, hdrop, List.rdropWhile_eq_self_iff]
  intro hne
  simp [hlast (s.getLast hne) (List.getLast?_eq_getLast_of_ne_nil hne)]

/-- A first byte as it is put together of the bits of a character. -/
theorem announced_first (x : UInt8) :
    announced (x &&& 0x1f ||| 0xc0) = 2 ∧ announced (x &&& 0x0f ||| 0xe0) = 3 ∧
    announced (x &&& 0x07 ||| 0xf0) = 4 := by
  have hall : ∀ x : Fin 256, announced (UInt8.ofFin x &&& 0x1f ||| 0xc0) = 2 ∧
      announced (UInt8.ofFin x &&& 0x0f ||| 0xe0) = 3 ∧
          announced (UInt8.ofFin x &&& 0x07 ||| 0xf0) = 4 := by
    decide +kernel
  exact hall x.toFin

theorem announced_ascii {tmp : UInt8} (hsmall : tmp.toNat ≤ 127) : announced tmp = 1 := by
  have hnot : ∀ least : UInt8, 127 < least.toNat → ¬tmp ≥ least := fun least hleast hge =>
    absurd (UInt8.le_iff_toNat_le.1 hge) (by omega)
  rw [announced, if_neg (hnot _ (by decide)), if_neg (hnot _ (by decide)),
    if_neg (hnot _ (by decide)),
    if_neg (hnot _ (by decide)), if_neg (hnot _ (by decide))]

/-- What the first byte of a character announces is the number of its bytes. -/
theorem isTile_utf8EncodeChar (c : Char) : IsTile announced (String.utf8EncodeChar c) := by
  rcases c.utf8Size_eq with h | h | h | h
  · have hval := UInt32.le_iff_toNat_le.1 (Char.utf8Size_eq_one_iff.1 h)
    have hsmall : c.val.toUInt8.toNat ≤ 127 := by
      rw [UInt32.toNat_toUInt8]
      exact (Nat.mod_le _ _).trans hval
    rw [String.utf8EncodeChar_eq_singleton h]
    exact (announced_ascii hsmall).symm
  · rw [String.utf8EncodeChar_eq_cons_cons h]
    exact (announced_first _).1.symm
  · rw [String.utf8EncodeChar_eq_cons_cons_cons h]
    exact (announced_first _).2.1.symm
  · rw [String.utf8EncodeChar_eq_cons_cons_cons_cons h]
    exact (announced_first _).2.2.symm

theorem announces_utf8 (chars : List Char) :
    Tiling announced (chars.flatMap String.utf8EncodeChar) (chars.map String.utf8EncodeChar) := by
  induction chars with
  | nil => exact tiling_nil.2 rfl
  | cons c chars ih => exact ih.cons (isTile_utf8EncodeChar c)

/-- **The length is returned without raising, and is the number of code points of a valid text,
exactly when** the trimmed text can be cut as its bytes announce. -/
theorem utfstrlen_total_iff (s : List UInt8) :
    ((∃ n, utfstrlen s = .ok n) ∧
      ∀ chars : List Char, s = chars.flatMap String.utf8EncodeChar → Trimmed s → utfstrlen s =
      .ok chars.length) ↔
        Announces (trim s) := by
  constructor
  · rintro ⟨⟨n, hn⟩, -⟩
    obtain ⟨tiles, htiles, -⟩ := utfstrlen_eq_ok_iff.1 hn
    exact ⟨tiles, htiles⟩
  · rintro ⟨tiles, htiles⟩
    refine ⟨⟨_, utfstrlen_eq_ok_iff.2 ⟨tiles, htiles, rfl⟩⟩, ?_⟩
    rintro chars rfl htrimmed
    refine utfstrlen_eq_ok_iff.2 ⟨chars.map String.utf8EncodeChar, ?_, List.length_map _⟩
    rw [trim_eq_self htrimmed]
    exact announces_utf8 chars

/-- The first byte of two, alone. -/
theorem utfstrlen_raises :
    ¬∀ s : List UInt8, (∃ n, utfstrlen s = .ok n) ∧
      ∀ chars : List Char, s = chars.flatMap String.utf8EncodeChar → Trimmed s →
        utfstrlen s = .ok chars.length := by
  intro hall
  obtain ⟨⟨n, hn⟩, -⟩ := hall [0xc3]
  obtain ⟨tiles, htiles, -⟩ := utfstrlen_eq_ok_iff.1 hn
  have htrim : trim [0xc3] = [0xc3] := by decide
  rw [htrim] at htiles
  have hshort := (tiling_cons.1 htiles).2.1
  revert hshort
  decide

end Announces

end SdyServer.Utf8
