import Mathlib.Logic.Function.Basic
import Mathlib.Data.List.Range
import Mathlib.Data.Nat.ModEq

/-!
# Ring buffers that grow

A queue in an array whose two ends go around. It is empty when the ends meet, so an array that a
write has filled is copied into a larger one at once.
-/

structure RingBuffer (α : Type*) where
  cap : Nat
  head : Nat
  tail : Nat
  cells : Nat → α

namespace RingBuffer

variable {α : Type*} {r : RingBuffer α} {x : α} {n : Nat}

section Operations

def next (r : RingBuffer α) (i : Nat) : Nat := if r.cap ≤ i + 1 then 0 else i + 1

def length (r : RingBuffer α) : Nat :=
  if r.head ≤ r.tail then r.tail - r.head else r.tail + r.cap - r.head

def write (r : RingBuffer α) (x : α) : RingBuffer α :=
  { r with cells := Function.update r.cells r.tail x, tail := r.next r.tail }

/-- A full ring in an array of `cap` cells. The new cells hold anything. -/
def expand (r : RingBuffer α) (cap : Nat) : RingBuffer α :=
  { cap
    head := 0
    tail := r.cap
    cells := fun i => if i < r.cap then r.cells ((r.head + i) % r.cap) else r.cells i }

def push (grow : Nat → Nat) (r : RingBuffer α) (x : α) : RingBuffer α :=
  let r := r.write x
  if r.head = r.tail then r.expand (grow r.cap) else r

def pop (r : RingBuffer α) : Option (α × RingBuffer α) :=
  if r.head = r.tail then none else some (r.cells r.head, { r with head := r.next r.head })

end Operations

/-- Both ends lie in the array. -/
structure Valid (r : RingBuffer α) : Prop where
  head_lt : r.head < r.cap
  tail_lt : r.tail < r.cap

/-- The first `n` cells from the head. -/
def window (r : RingBuffer α) (n : Nat) : List α :=
  (List.range n).map fun i => r.cells ((r.head + i) % r.cap)

def toList (r : RingBuffer α) : List α := r.window r.length

section Contents

@[simp]
theorem length_window : (r.window n).length = n := by
  rw [window, List.length_map, List.length_range]

@[simp]
theorem length_toList : r.toList.length = r.length := length_window

theorem Valid.length_lt (h : r.Valid) : r.length < r.cap := by
  obtain ⟨hhead, htail⟩ := h
  unfold length
  split_ifs <;> omega

theorem Valid.tail_eq (h : r.Valid) : (r.head + r.length) % r.cap = r.tail := by
  obtain ⟨hhead, htail⟩ := h
  unfold length
  split_ifs with hle
  · rw [Nat.add_sub_cancel' hle, Nat.mod_eq_of_lt htail]
  · have hsum : r.head + (r.tail + r.cap - r.head) = r.tail + r.cap := by omega
    rw [hsum, Nat.add_mod_right, Nat.mod_eq_of_lt htail]

theorem Valid.next_lt (h : r.Valid) (i : Nat) : r.next i < r.cap := by
  have hpos := h.head_lt
  unfold next
  split_ifs <;> omega

theorem Valid.next_eq (h : r.Valid) {i : Nat} (hi : i < r.cap) : r.next i = (i + 1) % r.cap := by
  have hpos := h.head_lt
  unfold next
  split_ifs with hlast
  · have hend : i + 1 = r.cap := by omega
    rw [hend, Nat.mod_self]
  · rw [Nat.mod_eq_of_lt (by omega)]

/-- Different offsets from the head are different cells. -/
theorem offset_injective {head cap i j : Nat} (hi : i < cap) (hj : j < cap)
    (heq : (head + i) % cap = (head + j) % cap) : i = j := by
  have hmod : i ≡ j [MOD cap] := Nat.ModEq.add_left_cancel' head heq
  rw [Nat.ModEq] at hmod
  rwa [Nat.mod_eq_of_lt hi, Nat.mod_eq_of_lt hj] at hmod

theorem Valid.write (h : r.Valid) : (r.write x).Valid := ⟨h.head_lt, h.next_lt _⟩

theorem Valid.window_write (h : r.Valid) : (r.write x).window (r.length + 1) = r.toList ++ [x] := by
  have hlt := h.length_lt
  rw [window, List.range_succ, List.map_append, List.map_singleton]
  congr 1
  · refine List.map_congr_left fun i hi => ?_
    rw [List.mem_range] at hi
    have hne : (r.head + i) % r.cap ≠ r.tail := by
      rw [← h.tail_eq]
      exact fun heq => hi.ne (offset_injective (by omega) hlt heq)
    exact Function.update_of_ne hne _ _
  · change [Function.update r.cells r.tail x ((r.head + r.length) % r.cap)] = [x]
    rw [h.tail_eq, Function.update_self]

/-- Whether a write fills the array. -/
theorem Valid.write_full_iff (h : r.Valid) :
    (r.write x).head = (r.write x).tail ↔ r.length + 1 = r.cap := by
  have hhead := h.head_lt
  have hlt := h.length_lt
  change r.head = r.next r.tail ↔ r.length + 1 = r.cap
  have hnext : r.next r.tail = (r.head + (r.length + 1)) % r.cap := by
    rw [h.next_eq h.tail_lt, ← h.tail_eq, Nat.mod_add_mod, Nat.add_assoc]
  rw [hnext]
  constructor
  · intro heq
    by_contra hne
    have hzero : (r.head + 0) % r.cap = (r.head + (r.length + 1)) % r.cap := by
      rw [Nat.add_zero, Nat.mod_eq_of_lt hhead, ← heq]
    have := offset_injective (by omega) (by omega) hzero
    omega
  · intro heq
    rw [heq, Nat.add_mod_right, Nat.mod_eq_of_lt hhead]

theorem Valid.length_write (h : r.Valid) (hroom : r.length + 1 ≠ r.cap) :
    (r.write x).length = r.length + 1 := by
  have htail := (h.write (x := x)).tail_eq
  have hnext : (r.write x).tail = (r.head + (r.length + 1)) % r.cap := by
    change r.next r.tail = _
    rw [h.next_eq h.tail_lt, ← h.tail_eq, Nat.mod_add_mod, Nat.add_assoc]
  rw [hnext] at htail
  have hlt := h.length_lt
  have hlt' : (r.write x).length < r.cap := (h.write (x := x)).length_lt
  exact offset_injective hlt' (by omega) htail

theorem toList_expand {cap : Nat} (hcap : r.cap ≤ cap) :
    (r.expand cap).toList = r.window r.cap := by
  have hlength : (r.expand cap).length = r.cap := by
    change (if 0 ≤ r.cap then r.cap - 0 else r.cap + cap - 0) = r.cap
    rw [if_pos (Nat.zero_le _), Nat.sub_zero]
  rw [toList, hlength]
  refine List.map_congr_left fun i hi => ?_
  rw [List.mem_range] at hi
  change (if (0 + i) % cap < r.cap then r.cells ((r.head + (0 + i) % cap) % r.cap) else _) = _
  rw [Nat.zero_add, Nat.mod_eq_of_lt (by omega), if_pos hi]

/-- **Pushing.** What is written comes last, also when the array has to grow. -/
theorem Valid.toList_push (h : r.Valid) {grow : Nat → Nat} (hgrow : r.cap < grow r.cap) :
    (r.push grow x).toList = r.toList ++ [x] := by
  unfold RingBuffer.push
  dsimp only
  split_ifs with hfull
  · have hcap : (r.write x).cap ≤ grow (r.write x).cap := hgrow.le
    rw [toList_expand hcap, ← h.window_write]
    rw [h.write_full_iff] at hfull
    rw [hfull]
    rfl
  · rw [h.write_full_iff] at hfull
    rw [toList, h.length_write hfull, h.window_write]

theorem Valid.push (h : r.Valid) {grow : Nat → Nat} (hgrow : r.cap < grow r.cap) :
    (r.push grow x).Valid := by
  have hhead := h.head_lt
  unfold RingBuffer.push
  dsimp only
  split_ifs
  · exact ⟨show 0 < grow r.cap by omega, hgrow⟩
  · exact h.write

theorem Valid.length_pop (h : r.Valid) (hne : r.head ≠ r.tail) :
    r.length = ({ r with head := r.next r.head } : RingBuffer α).length + 1 := by
  obtain ⟨hhead, htail⟩ := h
  unfold length next
  dsimp only
  split_ifs <;> omega

/-- **Popping.** The first of the list, if there is one. -/
theorem Valid.pop_eq (h : r.Valid) :
    (r.toList = [] ∧ r.pop = none) ∨
      ∃ x r', r.pop = some (x, r') ∧ r'.Valid ∧ r.toList = x :: r'.toList := by
  by_cases hempty : r.head = r.tail
  · left
    have hlength : r.length = 0 := by rw [length, if_pos hempty.le, hempty, Nat.sub_self]
    exact ⟨by rw [toList, hlength]; rfl, if_pos hempty⟩
  · right
    refine ⟨_, _, if_neg hempty, ⟨h.next_lt _, h.tail_lt⟩, ?_⟩
    rw [toList, window, h.length_pop hempty, List.range_succ_eq_map, List.map_cons, List.map_map,
      Nat.add_zero, Nat.mod_eq_of_lt h.head_lt]
    congr 1
    refine List.map_congr_left fun i _ => ?_
    change r.cells ((r.head + (i + 1)) % r.cap) = r.cells ((r.next r.head + i) % r.cap)
    rw [h.next_eq h.head_lt, Nat.mod_add_mod, Nat.add_assoc, Nat.add_comm 1 i]

end Contents

end RingBuffer
