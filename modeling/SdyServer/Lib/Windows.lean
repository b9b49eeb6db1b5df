import Mathlib.Data.List.Basic
import Mathlib.Order.Lattice

/-!
# Windows of rising lists

The windows of a list are read at each of its positions. In a strictly rising list they are the
rising lists of its elements between which there are no others.
-/

namespace SdyServer.Windows

variable {α : Type} {l row : List α} {n : Nat}

/-- The windows of length `n` are read from the positions that leave as many elements. -/
theorem window_iff_take_drop :
    row <:+: l ∧ row.length = n ↔ ∃ i, i + n ≤ l.length ∧ row = (l.drop i).take n := by
  constructor
  · rintro ⟨⟨s, t, rfl⟩, rfl⟩
    refine ⟨s.length, by simp, ?_⟩
    rw [List.append_assoc, List.drop_left, List.take_left]
  · rintro ⟨i, hle, rfl⟩
    refine ⟨⟨l.take i, (l.drop i).drop n, ?_⟩, ?_⟩
    · rw [List.append_assoc, List.take_append_drop, List.take_append_drop]
    · rw [List.length_take, List.length_drop]
      omega

variable [LinearOrder α]

/-- Elements that reach down to the lowest ones are the first elements. -/
theorem isPrefix_of_below (hl : l.Pairwise (· < ·)) (hrow : row.Pairwise (· < ·)) (hsub : row ⊆ l)
    (hbelow : ∀ v ∈ l, ∀ b ∈ row, v ≤ b → v ∈ row) : row <+: l := by
  induction l generalizing row with
  | nil =>
      obtain rfl := List.subset_nil.1 hsub
      exact ⟨[], rfl⟩
  | cons x rest ih =>
      cases row with
      | nil => exact ⟨_, rfl⟩
      | cons a row =>
          obtain ⟨hx, hrest⟩ := List.pairwise_cons.1 hl
          obtain ⟨ha, hrow'⟩ := List.pairwise_cons.1 hrow
          have hle : x ≤ a := by
            rcases List.mem_cons.1 (hsub (List.mem_cons_self ..)) with heq | hmem
            · exact heq.ge
            · exact (hx a hmem).le
          obtain rfl : x = a := by
            rcases List.mem_cons.1 (hbelow x (List.mem_cons_self ..) a (List.mem_cons_self ..) hle)
              with heq | hmem
            · exact heq
            · exact absurd (ha x hmem) hle.not_gt
          refine List.cons_prefix_cons.2
            ⟨rfl, ih hrest hrow' (fun v hv => ?_) fun v hv b hb hvb => ?_⟩
          · exact (List.mem_cons.1 (hsub (List.mem_cons_of_mem _ hv))).resolve_left (ha v hv).ne'
          · have hmem := hbelow v (List.mem_cons_of_mem _ hv) b (List.mem_cons_of_mem _ hb) hvb
            exact (List.mem_cons.1 hmem).resolve_left (hx v hv).ne'

/-- Nothing lies between the elements of a window. -/
theorem between_of_window (hl : l.Pairwise (· < ·)) (hwindow : row <:+: l) {v a b : α} (hv : v ∈ l)
    (ha : a ∈ row) (hb : b ∈ row) (hav : a ≤ v) (hvb : v ≤ b) : v ∈ row := by
  obtain ⟨s, t, rfl⟩ := hwindow
  rw [List.append_assoc] at hl hv
  obtain ⟨-, hl', hs⟩ := List.pairwise_append.1 hl
  obtain ⟨-, -, ht⟩ := List.pairwise_append.1 hl'
  rcases List.mem_append.1 hv with hv | hv
  · exact absurd (hs v hv a (List.mem_append_left _ ha)) hav.not_gt
  · rcases List.mem_append.1 hv with hv | hv
    · exact hv
    · exact absurd (ht b hb v hv) hvb.not_gt

/-- **Windows of a rising list** are told by their elements. -/
theorem window_iff (hl : l.Pairwise (· < ·)) :
    row <:+: l ↔ row.Pairwise (· < ·) ∧ row ⊆ l ∧ ∀ v ∈ l, ∀ a ∈ row, ∀ b ∈ row, a ≤ v → v ≤ b →
    v ∈ row := by
  refine ⟨fun hwindow => ⟨hl.sublist hwindow.sublist, hwindow.subset, fun v hv a ha b hb =>
    between_of_window hl hwindow hv ha hb⟩, ?_⟩
  rintro ⟨hrow, hsub, hbetween⟩
  induction l with
  | nil =>
      obtain rfl := List.subset_nil.1 hsub
      exact ⟨[], [], rfl⟩
  | cons x rest ih =>
      obtain ⟨hx, hrest⟩ := List.pairwise_cons.1 hl
      by_cases hmem : x ∈ row
      -- the window starts here
      · refine (isPrefix_of_below hl hrow hsub fun v hv b hb hvb => ?_).isInfix
        refine hbetween v hv x hmem b hb ?_ hvb
        rcases List.mem_cons.1 hv with rfl | hv
        · exact le_rfl
        · exact (hx v hv).le
      · have hsub' : row ⊆ rest := fun v hv =>
          (List.mem_cons.1 (hsub hv)).resolve_left fun heq => hmem (heq ▸ hv)
        exact (ih hrest hsub' fun v hv => hbetween v (List.mem_cons_of_mem _ hv)).trans
          (List.suffix_cons _ _).isInfix

end SdyServer.Windows
