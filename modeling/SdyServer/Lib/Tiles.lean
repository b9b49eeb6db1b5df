import Mathlib.Data.List.Basic
import Mathlib.Data.Nat.Init

/-!
# Lists cut into tiles

The first element of a tile tells how long the tile is. A list is cut into tiles from its front, in
one way at most.
-/

namespace Tiles

variable {α : Type*} {width : α → Nat} {a : α} {l : List α} {tiles tiles' : List (List α)}

/-- A tile is as long as its first element says. -/
def IsTile (width : α → Nat) : List α → Prop
  | [] => False
  | a :: rest => (a :: rest).length = width a

/-- The list is cut into the tiles. -/
def Tiling (width : α → Nat) (l : List α) (tiles : List (List α)) : Prop :=
  tiles.flatten = l ∧ ∀ t ∈ tiles, IsTile width t

theorem tiling_nil : Tiling width [] tiles ↔ tiles = [] := by
  constructor
  · rintro ⟨hflat, hall⟩
    cases tiles with
    | nil => rfl
    | cons t tiles =>
        obtain ⟨rfl, -⟩ := List.append_eq_nil_iff.1 hflat
        exact (hall [] (List.mem_cons_self ..)).elim
  · rintro rfl
    exact ⟨rfl, by simp⟩

/-- The first tile is cut off, and the rest is cut. -/
theorem tiling_cons : Tiling width (a :: l) tiles ↔ 0 < width a ∧ width a ≤ (a :: l).length ∧
    ∃ rest, tiles = (a :: l).take (width a) :: rest ∧
    Tiling width ((a :: l).drop (width a)) rest := by
  constructor
  · rintro ⟨hflat, hall⟩
    cases tiles with
    | nil => cases hflat
    | cons t rest =>
        rw [List.forall_mem_cons] at hall
        cases t with
        | nil => exact hall.1.elim
        | cons b t =>
            obtain ⟨rfl, -⟩ := List.cons.inj hflat
            have hwidth : (b :: t).length = width b := hall.1
            have hsplit : b :: l = (b :: t) ++ rest.flatten := hflat.symm
            refine ⟨hwidth ▸ Nat.succ_pos _, ?_, rest, ?_, ?_, hall.2⟩
            · rw [hsplit, List.length_append, ← hwidth]
              exact Nat.le_add_right _ _
            · rw [hsplit, ← hwidth, List.take_left]
            · rw [hsplit, ← hwidth, List.drop_left]
  · rintro ⟨hpos, hle, rest, rfl, hflat, hall⟩
    refine ⟨?_, List.forall_mem_cons.2 ⟨?_, hall⟩⟩
    · rw [List.flatten_cons, hflat, List.take_append_drop]
    · obtain ⟨n, hn⟩ : ∃ n, width a = n + 1 := ⟨width a - 1, by omega⟩
      rw [hn, List.take_succ_cons, IsTile, hn, List.length_cons, List.length_take]
      rw [hn, List.length_cons] at hle
      omega

/-- A tile in front, and the tiles of the rest. -/
theorem Tiling.cons {t : List α} (ht : IsTile width t) (h : Tiling width l tiles) :
    Tiling width (t ++ l) (t :: tiles) :=
  ⟨by rw [List.flatten_cons, h.1], List.forall_mem_cons.2 ⟨ht, h.2⟩⟩

end Tiles
