import Mathlib.Data.Nat.Basic
import Mathlib.Data.List.Infix
import Mathlib.Tactic.Ring

/-!
# Bytes of numbers

Numbers written with a fixed number of bytes, the most significant first or last, and byte strings
read at an offset.
-/

namespace Bytes

/-- The last `n` bytes of a number, the most significant first. -/
def ofNat : Nat → Nat → List UInt8
  | 0, _ => []
  | n + 1, value => UInt8.ofNat (value / 256 ^ n) :: ofNat n (value % 256 ^ n)

/-- The number that the bytes write. -/
def toNat : List UInt8 → Nat
  | [] => 0
  | byte :: rest => byte.toNat * 256 ^ rest.length + toNat rest

@[simp]
theorem length_ofNat (n value : Nat) : (ofNat n value).length = n := by
  induction n generalizing value with
  | zero => rfl
  | succ n ih => rw [ofNat, List.length_cons, ih]

/-- A number that fits is read back. -/
theorem toNat_ofNat {n value : Nat} (hvalue : value < 256 ^ n) : toNat (ofNat n value) = value := by
  induction n generalizing value with
  | zero =>
      rw [pow_zero] at hvalue
      rw [ofNat, toNat]
      omega
  | succ n ih =>
      have hpos : 0 < 256 ^ n := Nat.pow_pos (by decide)
      have hhead : value / 256 ^ n < 256 := by
        rw [Nat.div_lt_iff_lt_mul hpos]
        calc
          value < 256 ^ (n + 1) := hvalue
          _ = 256 * 256 ^ n := by rw [pow_succ, mul_comm]
      rw [ofNat, toNat, ih (Nat.mod_lt _ hpos), length_ofNat, UInt8.toNat_ofNat',
        Nat.mod_eq_of_lt hhead,
        Nat.div_add_mod']

/-- The last `n` bytes of a number, the least significant first. -/
def ofNatLe : Nat → Nat → List UInt8
  | 0, _ => []
  | n + 1, value => UInt8.ofNat (value % 256) :: ofNatLe n (value / 256)

/-- The number that the bytes write, the least significant first. -/
def toNatLe : List UInt8 → Nat
  | [] => 0
  | byte :: rest => byte.toNat + 256 * toNatLe rest

@[simp]
theorem length_ofNatLe (n value : Nat) : (ofNatLe n value).length = n := by
  induction n generalizing value with
  | zero => rfl
  | succ n ih => rw [ofNatLe, List.length_cons, ih]

theorem toNatLe_ofNatLe (n value : Nat) : toNatLe (ofNatLe n value) = value % 256 ^ n := by
  induction n generalizing value with
  | zero => rw [ofNatLe, toNatLe, pow_zero, Nat.mod_one]
  | succ n ih =>
      rw [ofNatLe, toNatLe, ih, UInt8.toNat_ofNat', Nat.mod_mod, pow_succ, mul_comm (256 ^ n) 256,
        Nat.mod_mul]

/-- The bytes stand in the buffer at the offset. -/
def At (buffer : List UInt8) (offset : Nat) (bytes : List UInt8) : Prop :=
  bytes <+: buffer.drop offset

variable {buffer bytes bytes' : List UInt8} {offset : Nat}

theorem At.append (h : At buffer offset (bytes ++ bytes')) :
    At buffer offset bytes ∧ At buffer (offset + bytes.length) bytes' := by
  obtain ⟨rest, hrest⟩ := h
  refine ⟨⟨bytes' ++ rest, ?_⟩, ⟨rest, ?_⟩⟩
  · rw [← hrest, List.append_assoc]
  · rw [← List.drop_drop, ← hrest, List.append_assoc, List.drop_left]

theorem At.take (h : At buffer offset bytes) : (buffer.drop offset).take bytes.length = bytes :=
  (List.prefix_iff_eq_take.1 h).symm

end Bytes
