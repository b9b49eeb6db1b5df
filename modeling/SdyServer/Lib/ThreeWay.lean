import Mathlib.Data.List.Lex
import Mathlib.Data.List.Sort

/-!
# Three-way comparisons

A comparison answers `true` when its first argument wins, `false` when the second one does and nil
on a tie. Comparing keys of a linear order is a strict weak order, and lists are compared at their
first difference.
-/

namespace ThreeWay

variable {α β : Type*}

/-- The larger one wins. -/
def verdict [LinearOrder β] (x y : β) : Option Bool :=
  if y < x then some true else if x < y then some false else none

structure WeakOrder (f : α → α → Option Bool) : Prop where
  swap_true : ∀ a b, f a b = some true ↔ f b a = some false
  swap_nil : ∀ a b, f a b = none ↔ f b a = none
  trans : ∀ a b c, f a b = some true → f b c = some true → f a c = some true
  nil_refl : ∀ a, f a a = none
  nil_trans : ∀ a b c, f a b = none → f b c = none → f a c = none
  nil_left : ∀ a b c, f a b = none → f b c = some true → f a c = some true
  nil_right : ∀ a b c, f a b = some true → f b c = none → f a c = some true

section Keys

variable [LinearOrder β] {x y : β}

theorem verdict_eq_true_iff : verdict x y = some true ↔ y < x := by
  unfold verdict
  split_ifs with hlt hgt
  · simp [hlt]
  · simp [hlt]
  · simp [hlt]

theorem verdict_eq_false_iff : verdict x y = some false ↔ x < y := by
  unfold verdict
  split_ifs with hlt hgt
  · simp [hlt.le]
  · simp [hgt]
  · simp [hgt]

theorem verdict_eq_none_iff : verdict x y = none ↔ x = y := by
  unfold verdict
  split_ifs with hlt hgt
  · simp [hlt.ne']
  · simp [hgt.ne]
  · simpa using le_antisymm (not_lt.1 hlt) (not_lt.1 hgt)

@[simp]
theorem verdict_self (x : β) : verdict x x = none := verdict_eq_none_iff.2 rfl

theorem verdict_of_ne (hne : x ≠ y) : verdict x y = some (decide (y < x)) := by
  rcases hne.lt_or_gt with hlt | hgt
  · rw [verdict_eq_false_iff.2 hlt, decide_eq_false hlt.not_gt]
  · rw [verdict_eq_true_iff.2 hgt, decide_eq_true hgt]

theorem verdict_beq_false (x y : β) : (verdict x y == some false) = decide (x < y) := by
  rw [Bool.eq_iff_iff, beq_iff_eq, decide_eq_true_eq, verdict_eq_false_iff]

/-- Comparing by a key is a strict weak order. -/
theorem WeakOrder.of_key {f : α → α → Option Bool} (key : α → β)
    (hf : ∀ a b, f a b = verdict (key a) (key b)) :
    WeakOrder f where
  swap_true a b := by rw [hf, hf, verdict_eq_true_iff, verdict_eq_false_iff]
  swap_nil a b := by rw [hf, hf, verdict_eq_none_iff, verdict_eq_none_iff, eq_comm]
  trans a b c := by
    rw [hf, hf, hf, verdict_eq_true_iff, verdict_eq_true_iff, verdict_eq_true_iff]
    exact fun hab hbc => hbc.trans hab
  nil_refl a := by rw [hf, verdict_self]
  nil_trans a b c := by
    rw [hf, hf, hf, verdict_eq_none_iff, verdict_eq_none_iff, verdict_eq_none_iff]
    exact Eq.trans
  nil_left a b c := by
    rw [hf, hf, hf, verdict_eq_none_iff, verdict_eq_true_iff, verdict_eq_true_iff]
    exact fun hab hbc => hab ▸ hbc
  nil_right a b c := by
    rw [hf, hf, hf, verdict_eq_none_iff, verdict_eq_true_iff, verdict_eq_true_iff]
    exact fun hab hbc => hbc ▸ hab

end Keys

section Lists

variable [LinearOrder β] {x y : β} {xs ys : List β}

theorem cons_lt_cons_iff : x :: xs < y :: ys ↔ x < y ∨ x = y ∧ xs < ys := List.cons_lt_cons_iff

theorem verdict_cons_of_ne (hne : x ≠ y) : verdict (x :: xs) (y :: ys) = verdict x y := by
  rcases hne.lt_or_gt with hlt | hgt
  · rw [verdict_eq_false_iff.2 hlt, verdict_eq_false_iff.2 (cons_lt_cons_iff.2 (Or.inl hlt))]
  · rw [verdict_eq_true_iff.2 hgt, verdict_eq_true_iff.2 (cons_lt_cons_iff.2 (Or.inl hgt))]

@[simp]
theorem verdict_cons_self (x : β) (xs ys : List β) :
    verdict (x :: xs) (x :: ys) = verdict xs ys := by
  have hcons : ∀ xs ys : List β, x :: xs < x :: ys ↔ xs < ys := by
    intro xs ys
    rw [cons_lt_cons_iff]
    simp
  rcases lt_trichotomy xs ys with hlt | rfl | hgt
  · rw [verdict_eq_false_iff.2 hlt, verdict_eq_false_iff.2 ((hcons ..).2 hlt)]
  · rw [verdict_self, verdict_self]
  · rw [verdict_eq_true_iff.2 hgt, verdict_eq_true_iff.2 ((hcons ..).2 hgt)]

theorem verdict_cons (x y : β) (xs ys : List β) :
    verdict (x :: xs) (y :: ys) = if x = y then verdict xs ys else some (decide (y < x)) := by
  split_ifs with heq
  · rw [heq, verdict_cons_self]
  · rw [verdict_cons_of_ne heq, verdict_of_ne heq]

theorem verdict_cons_beq_false (x y : β) (xs ys : List β) :
    (verdict (x :: xs) (y :: ys) == some false) =
      if x = y then verdict xs ys == some false else decide (x < y) := by
  rw [verdict_cons]
  split_ifs with heq
  · rfl
  · rw [← verdict_of_ne heq, verdict_beq_false]

@[simp]
theorem verdict_singleton (x y : β) : verdict [x] [y] = verdict x y := by
  rw [verdict_cons, verdict_self]
  split_ifs with heq
  · rw [heq, verdict_self]
  · rw [verdict_of_ne heq]

/-- A common element, put at its place in two falling lists, does not change how they compare. -/
theorem verdict_orderedInsert (z : β) :
    ∀ {xs ys : List β}, xs.length = ys.length → xs.Pairwise (· ≥ ·) → ys.Pairwise (· ≥ ·) →
      verdict (xs.orderedInsert (· ≥ ·) z) (ys.orderedInsert (· ≥ ·) z) = verdict xs ys
  | [], [], _, _, _ => by simp
  | x :: xs, y :: ys, hlength, hxs, hys => by
      rw [List.orderedInsert_cons, List.orderedInsert_cons]
      rw [List.pairwise_cons] at hxs hys
      by_cases hx : z ≥ x
      · by_cases hy : z ≥ y
        · rw [if_pos hx, if_pos hy, verdict_cons_self]
        · have hlt : x < y := hx.trans_lt (not_le.1 hy)
          rw [if_pos hx, if_neg hy, verdict_cons_of_ne (not_le.1 hy).ne, verdict_cons_of_ne hlt.ne,
            verdict_eq_false_iff.2 (not_le.1 hy), verdict_eq_false_iff.2 hlt]
      · by_cases hy : z ≥ y
        · have hlt : y < x := hy.trans_lt (not_le.1 hx)
          rw [if_neg hx, if_pos hy, verdict_cons_of_ne (not_le.1 hx).ne',
            verdict_cons_of_ne hlt.ne',
            verdict_eq_true_iff.2 (not_le.1 hx), verdict_eq_true_iff.2 hlt]
        · rw [if_neg hx, if_neg hy, verdict_cons, verdict_cons]
          by_cases heq : x = y
          · rw [if_pos heq, if_pos heq]
            exact verdict_orderedInsert z (Nat.succ.inj hlength) hxs.2 hys.2
          · rw [if_neg heq, if_neg heq]

end Lists

end ThreeWay
