import Mathlib.Algebra.BigOperators.Group.Finset.Piecewise
import Mathlib.Algebra.BigOperators.Ring.Finset
import Mathlib.Algebra.Order.BigOperators.Group.Finset

/-!
# Weighing how often the elements of a list occur

Each element of a list weighs what a weight gives to the number of times it occurs. An element that
comes in changes the total by what its own weight changes.
-/

namespace Weights

open Finset

variable {α : Type*} [DecidableEq α] {w w' : Nat → Nat} {l l' : List α} {a : α}

/-- The weights of the elements, each of them once. -/
def total (w : Nat → Nat) (l : List α) : Nat := ∑ a ∈ l.toFinset, w (l.count a)

theorem total_perm (hperm : l.Perm l') : total w l = total w l' := by
  unfold total
  rw [List.toFinset_eq_of_perm _ _ hperm]
  exact Finset.sum_congr rfl fun a _ => by rw [hperm.count_eq]

/-- An element that comes in weighs what it weighs with one more. -/
theorem total_cons (hw : w 0 = 0) (a : α) (l : List α) :
    total w (a :: l) + w (l.count a) = total w l + w (l.count a + 1) := by
  have hrest : ∑ b ∈ l.toFinset.erase a, w ((a :: l).count b) = ∑ b ∈ l.toFinset.erase a,
      w (l.count b) :=
    Finset.sum_congr rfl fun b hb => by rw [List.count_cons_of_ne (Finset.ne_of_mem_erase hb).symm]
  have hinsert : insert a l.toFinset = insert a (l.toFinset.erase a) := by grind
  have hnew : total w (a :: l) = w (l.count a + 1) + ∑ b ∈ l.toFinset.erase a, w (l.count b) := by
    unfold total
    rw [List.toFinset_cons, hinsert, Finset.sum_insert (Finset.notMem_erase a _), hrest,
      List.count_cons_self]
  have hold : w (l.count a) + ∑ b ∈ l.toFinset.erase a, w (l.count b) = total w l := by
    unfold total
    by_cases ha : a ∈ l
    · exact Finset.add_sum_erase _ (fun b => w (l.count b)) (List.mem_toFinset.2 ha)
    · rw [Finset.erase_eq_of_notMem fun h => ha (List.mem_toFinset.1 h),
        List.count_eq_zero.2 ha, hw,
        Nat.zero_add]
  omega

theorem total_mono (hle : ∀ n, w n ≤ w' n) : total w l ≤ total w' l :=
  Finset.sum_le_sum fun _ _ => hle _

theorem total_mono_of_mem (hle : ∀ a ∈ l, w (l.count a) ≤ w' (l.count a)) :
    total w l ≤ total w' l :=
  Finset.sum_le_sum fun a ha => hle a (List.mem_toFinset.1 ha)

theorem total_add (w w' : Nat → Nat) (l : List α) :
    total (fun n => w n + w' n) l = total w l + total w' l := Finset.sum_add_distrib

theorem total_mul (k : Nat) (w : Nat → Nat) (l : List α) :
    total (fun n => k * w n) l = k * total w l :=
  (Finset.mul_sum _ _ k).symm

/-- As often as they occur, the elements weigh as much as the list is long. -/
theorem total_self (l : List α) : total (fun n => n) l = l.length := by
  unfold total
  exact List.sum_toFinset_count_eq_length l

theorem le_total (ha : a ∈ l) : w (l.count a) ≤ total w l :=
  Finset.single_le_sum (f := fun a => w (l.count a))
    (fun _ _ => Nat.zero_le _) (List.mem_toFinset.2 ha)

/-- Elements that weigh at most as much as they occur leave at least what one of them leaves. -/
theorem total_add_le_length (hw : ∀ n, w n ≤ n) (ha : a ∈ l) :
    total w l + (l.count a - w (l.count a)) ≤ l.length := by
  have hrest : l.count a - w (l.count a) ≤ total (fun n => n - w n) l :=
    @le_total _ _ (fun n => n - w n) _ _ ha
  calc total w l + (l.count a - w (l.count a))
      ≤ total w l + total (fun n => n - w n) l := Nat.add_le_add_left hrest _
    _ = total (fun n => w n + (n - w n)) l := (total_add w _ l).symm
    _ = total (fun n => n) l :=
      congrArg (fun w => total w l) (funext fun n => Nat.add_sub_of_le (hw n))
    _ = l.length := total_self l

theorem add_le_total {b : α} (hne : a ≠ b) (ha : a ∈ l) (hb : b ∈ l) :
    w (l.count a) + w (l.count b) ≤ total w l := by
  have hsub : {a, b} ⊆ l.toFinset := by
    intro c hc
    rcases Finset.mem_insert.1 hc with rfl | hc
    · exact List.mem_toFinset.2 ha
    · exact List.mem_toFinset.2 (Finset.mem_singleton.1 hc ▸ hb)
  have hle := Finset.sum_le_sum_of_subset (f := fun a => w (l.count a)) hsub
  rwa [Finset.sum_pair hne] at hle

theorem exists_of_total_pos (hpos : 0 < total w l) : ∃ a ∈ l, 0 < w (l.count a) := by
  obtain ⟨a, ha, hne⟩ := Finset.exists_ne_zero_of_sum_ne_zero hpos.ne'
  exact ⟨a, List.mem_toFinset.1 ha, Nat.pos_of_ne_zero hne⟩

/-- At most one element weighs one, and the others nothing. -/
theorem total_le_one (hw : ∀ n, w n ≤ 1)
    (hone : ∀ a ∈ l, ∀ b ∈ l, 0 < w (l.count a) → 0 < w (l.count b) → a = b) : total w l ≤ 1 := by
  rcases Nat.eq_zero_or_pos (total w l) with hzero | hpos
  · omega
  · obtain ⟨a, ha, hwa⟩ := exists_of_total_pos hpos
    have hsum : total w l = w (l.count a) :=
      Finset.sum_eq_single_of_mem a (List.mem_toFinset.2 ha) fun b hb hne => by
        by_contra hwb
        exact hne (hone b (List.mem_toFinset.1 hb) a ha (Nat.pos_of_ne_zero hwb) hwa)
    rw [hsum]
    exact hw _

/-- The total over the elements in any order in which they are gone through. -/
theorem total_eq_sum {keys : List α} (hkeys : keys.Perm l.dedup) :
    total w l = (keys.map fun a => w (l.count a)).sum := by
  rw [(hkeys.map _).sum_eq]
  have hdedup : l.toFinset = l.dedup.toFinset := Finset.ext fun a => by simp
  unfold total
  rw [hdedup]
  exact List.sum_toFinset _ (List.nodup_dedup l)

end Weights
