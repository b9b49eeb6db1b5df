import Mathlib.Logic.Function.Basic
import Mathlib.Data.List.Basic

/-!
# Arrays behind references

A variable that holds an array holds a reference to it, and two variables may hold the same. A new
array gets a reference that was not in use.
-/

/-- The arrays by their references; those from `next` on are not in use. -/
structure Arrays (α : Type*) where
  array : Nat → List α
  next : Nat

namespace Arrays

variable {α : Type*} {s : Arrays α} {ref : Nat} {l : List α} {i : Nat}

/-- A new array. -/
def alloc (s : Arrays α) (l : List α) : Arrays α × Nat :=
  ({ array := Function.update s.array s.next l, next := s.next + 1 }, s.next)

/-- `table.remove(ref, i)`, positions counted from one. -/
def remove (s : Arrays α) (ref i : Nat) : Arrays α :=
  { s with array := Function.update s.array ref ((s.array ref).eraseIdx (i - 1)) }

@[simp]
theorem alloc_ref : (s.alloc l).2 = s.next := rfl

@[simp]
theorem alloc_next : (s.alloc l).1.next = s.next + 1 := rfl

@[simp]
theorem alloc_new : (s.alloc l).1.array s.next = l := Function.update_self ..

theorem alloc_old (href : ref < s.next) : (s.alloc l).1.array ref = s.array ref :=
  Function.update_of_ne (Nat.ne_of_lt href) _ _

@[simp]
theorem remove_next : (s.remove ref i).next = s.next := rfl

@[simp]
theorem remove_self : (s.remove ref i).array ref = (s.array ref).eraseIdx (i - 1) :=
  Function.update_self ..

theorem remove_other {ref' : Nat} (hne : ref' ≠ ref) : (s.remove ref i).array ref' = s.array ref' :=
  Function.update_of_ne hne _ _

end Arrays
