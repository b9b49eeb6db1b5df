import Mathlib.Data.List.Basic
import Mathlib.Data.List.Nodup

/-!
# Rows that are found by their id

A table is a list of rows, and each row has an id of its own. An update changes the row with a given
id and leaves the others as they are, so what is counted over the table changes by that row alone.
-/

namespace Rows

variable {α : Type*} {ident : α → Nat} {rows : List α} {row : α} {change : α → α} {n : Nat}

/-- `update … where id = n`. -/
def update (ident : α → Nat) (n : Nat) (change : α → α) (rows : List α) : List α :=
  rows.map fun row => if ident row = n then change row else row

theorem mem_update : row ∈ update ident n change rows ↔
    ∃ row' ∈ rows, (if ident row' = n then change row' else row') = row :=
  List.mem_map

theorem mem_update_of_mem (hrow : row ∈ rows) :
    (if ident row = n then change row else row) ∈ update ident n change rows :=
  List.mem_map_of_mem hrow

/-- An update that keeps the ids keeps them where they are. -/
theorem map_update {β : Type*} (f : α → β) (hchange : ∀ row, f (change row) = f row) :
    (update ident n change rows).map f = rows.map f := by
  rw [update, List.map_map]
  refine List.map_congr_left fun row _ => ?_
  rw [Function.comp_apply]
  split_ifs
  · exact hchange row
  · rfl

theorem update_of_forall_ne (hne : ∀ row ∈ rows, ident row ≠ n) :
    update ident n change rows = rows := by
  have hid : ∀ row ∈ rows, (if ident row = n then change row else row) = id row :=
    fun row hrow => if_neg (hne row hrow)
  rw [update, List.map_congr_left hid, List.map_id]

/-- Two rows of one table with one id are one row. -/
theorem eq_of_ident_eq (hnodup : (rows.map ident).Nodup) {row' : α} (hrow : row ∈ rows)
    (hrow' : row' ∈ rows)
    (hident : ident row = ident row') : row = row' :=
  List.inj_on_of_nodup_map hnodup hrow hrow' hident

theorem countP_update_of_keep {p : α → Bool}
    (hkeep : ∀ row ∈ rows, ident row = n → p (change row) = p row) :
    (update ident n change rows).countP p = rows.countP p := by
  rw [update, List.countP_map]
  refine List.countP_congr fun row hrow => ?_
  rw [Function.comp_apply]
  split_ifs with hident
  · rw [hkeep row hrow hident]
  · rfl

/-- **What is counted changes by the updated row.** -/
theorem countP_update (change : α → α) (p : α → Bool) (hnodup : (rows.map ident).Nodup)
    (hrow : row ∈ rows) :
    (update ident (ident row) change rows).countP p + (if p row then 1 else 0) =
      rows.countP p + (if p (change row) then 1 else 0) := by
  induction rows with
  | nil => exact absurd hrow List.not_mem_nil
  | cons head rows ih =>
      rw [List.map_cons, List.nodup_cons] at hnodup
      have hcons : update ident (ident row) change (head :: rows) =
          (if ident head = ident row then change head else head) ::
            update ident (ident row) change rows := rfl
      rw [hcons, List.countP_cons, List.countP_cons]
      rcases List.mem_cons.1 hrow with rfl | hrow
      · have hrest : update ident (ident row) change rows = rows :=
          update_of_forall_ne fun other hother heq => hnodup.1 (heq ▸ List.mem_map_of_mem hother)
        rw [if_pos rfl, hrest]
        omega
      · have hne : ident head ≠ ident row := fun heq => hnodup.1 (heq ▸ List.mem_map_of_mem hrow)
        have := ih hnodup.2 hrow
        rw [if_neg hne]
        omega

end Rows
