import Mathlib.Computability.MyhillNerode
import Mathlib.Order.Bounds.Basic

/-!
# Longest matches

A list starts with some of the words of a language, and the longest of them is found letter by
letter: behind the first letter it goes on with what the language leaves behind that letter. The
empty word does not count.
-/

namespace LongestMatch

variable {α : Type*} {L : Language α} {s : List α} {a : α} {n : Nat} {found : Option Nat}

/-- The lengths of the words that the list starts with. -/
def lengths (L : Language α) (s : List α) : Set Nat := {n | 0 < n ∧ n ≤ s.length ∧ s.take n ∈ L}

/-- The length of the longest word that the list starts with, if there is one. -/
def IsLongest (L : Language α) (s : List α) (found : Option Nat) : Prop :=
  (∀ n, found = some n → IsGreatest (lengths L s) n) ∧ (found = none → lengths L s = ∅)

theorem mem_lengths_iff : n ∈ lengths L s ↔ ∃ w ∈ L, w ≠ [] ∧ w <+: s ∧ w.length = n := by
  constructor
  · rintro ⟨hpos, hle, hmem⟩
    refine ⟨s.take n, hmem, fun hnil => ?_, List.take_prefix n s, List.length_take_of_le hle⟩
    have hlength := List.length_take_of_le hle
    rw [hnil, List.length_nil] at hlength
    omega
  · rintro ⟨w, hmem, hne, hpre, rfl⟩
    refine ⟨List.length_pos_iff.2 hne, hpre.length_le, ?_⟩
    rw [← List.prefix_iff_eq_take.1 hpre]
    exact hmem

theorem lengths_nil : lengths L [] = ∅ :=
  Set.eq_empty_of_forall_notMem fun n ⟨hpos, hle, _⟩ => by
    rw [List.length_nil] at hle
    omega

theorem isLongest_nil : IsLongest L [] none := ⟨fun _ h => absurd h (by simp), fun _ => lengths_nil⟩

/-- Nothing is found of a language that has the empty word at most. -/
theorem isLongest_none (hnil : ∀ w ∈ L, w = []) : IsLongest L s none := by
  refine ⟨fun _ h => absurd h (by simp), fun _ => Set.eq_empty_of_forall_notMem fun n hn => ?_⟩
  obtain ⟨w, hmem, hne, -⟩ := mem_lengths_iff.1 hn
  exact hne (hnil w hmem)

/-- Behind the first letter of a match is the end of it, or a match of what is left of the
language. -/
theorem succ_mem_lengths_cons :
    n + 1 ∈ lengths L (a :: s) ↔ n = 0 ∧ [a] ∈ L ∨ n ∈ lengths (L.leftQuotient [a]) s := by
  have hcons : (a :: s).take (n + 1) = [a] ++ s.take n := rfl
  constructor
  · rintro ⟨-, hle, hmem⟩
    rw [hcons] at hmem
    rcases Nat.eq_zero_or_pos n with rfl | hpos
    · exact .inl ⟨rfl, by simpa using hmem⟩
    · exact .inr ⟨hpos, Nat.succ_le_succ_iff.1 hle, hmem⟩
  · rintro (⟨rfl, hmem⟩ | ⟨hpos, hle, hmem⟩)
    · exact ⟨Nat.one_pos, Nat.succ_le_succ (Nat.zero_le _), hmem⟩
    · exact ⟨Nat.succ_pos n, Nat.succ_le_succ hle, hmem⟩

/-- **The longest match goes on behind the first letter**, and ends there where it does not. -/
theorem IsLongest.cons {ends : Bool} (hends : ends = true ↔ [a] ∈ L)
    (h : IsLongest (L.leftQuotient [a]) s found) :
    IsLongest L (a :: s) ((found.map (· + 1)).or (if ends then some 1 else none)) := by
  have hzero : 0 ∉ lengths L (a :: s) := fun h => absurd h.1 (lt_irrefl 0)
  cases found with
  | some n =>
      obtain ⟨hmem, hgreatest⟩ := h.1 n rfl
      refine ⟨fun m hm => ?_, fun hnone => absurd hnone (by simp)⟩
      obtain rfl : n + 1 = m := by simpa using hm
      refine ⟨succ_mem_lengths_cons.2 (.inr hmem), fun k hk => ?_⟩
      cases k with
      | zero => exact Nat.zero_le _
      | succ k =>
          rcases succ_mem_lengths_cons.1 hk with ⟨rfl, -⟩ | hk
          · omega
          · exact Nat.succ_le_succ (hgreatest hk)
  | none =>
      have hempty := h.2 rfl
      have hsucc : ∀ k, k + 1 ∈ lengths L (a :: s) ↔ k = 0 ∧ [a] ∈ L := by
        intro k
        rw [succ_mem_lengths_cons, hempty]
        exact or_iff_left (Set.notMem_empty k)
      rw [Option.map_none, Option.none_or]
      by_cases hletter : [a] ∈ L
      · rw [if_pos (hends.2 hletter)]
        refine ⟨fun m hm => ?_, fun hnone => absurd hnone (by simp)⟩
        cases hm
        refine ⟨(hsucc 0).2 ⟨rfl, hletter⟩, fun k hk => ?_⟩
        cases k with
        | zero => exact Nat.zero_le _
        | succ k => exact (((hsucc k).1 hk).1 ▸ le_refl _)
      · rw [if_neg fun h => hletter (hends.1 h)]
        refine ⟨fun m hm => absurd hm (by simp), fun _ => Set.eq_empty_of_forall_notMem
          fun k hk => ?_⟩
        cases k with
        | zero => exact hzero hk
        | succ k => exact hletter ((hsucc k).1 hk).2

/-- Only the words that are not empty matter. -/
theorem IsLongest.congr {L' : Language α} (hwords : ∀ w, w ≠ [] → (w ∈ L ↔ w ∈ L'))
    (h : IsLongest L s found) :
    IsLongest L' s found := by
  have hlengths : lengths L s = lengths L' s := by
    ext n
    rw [mem_lengths_iff, mem_lengths_iff]
    refine exists_congr fun w => ?_
    constructor
    · rintro ⟨hmem, hne, hrest⟩
      exact ⟨(hwords w hne).1 hmem, hne, hrest⟩
    · rintro ⟨hmem, hne, hrest⟩
      exact ⟨(hwords w hne).2 hmem, hne, hrest⟩
  rw [IsLongest, ← hlengths]
  exact h

theorem IsLongest.isSome_iff (h : IsLongest L s found) :
    found.isSome = true ↔ ∃ w ∈ L, w ≠ [] ∧ w <+: s := by
  cases found with
  | some n =>
      refine iff_of_true rfl ?_
      obtain ⟨w, hmem, hne, hpre, -⟩ := mem_lengths_iff.1 (h.1 n rfl).1
      exact ⟨w, hmem, hne, hpre⟩
  | none =>
      refine iff_of_false (by simp) ?_
      rintro ⟨w, hmem, hne, hpre⟩
      have hin : w.length ∈ lengths L s := mem_lengths_iff.2 ⟨w, hmem, hne, hpre, rfl⟩
      rw [h.2 rfl] at hin
      exact hin

theorem IsLongest.eq_some_iff (h : IsLongest L s found) : found = some n ↔
    ∃ w ∈ L, w ≠ [] ∧ w <+: s ∧ w.length = n ∧ ∀ w' ∈ L, w' <+: s → w'.length ≤ w.length := by
  constructor
  · intro hfound
    obtain ⟨hmem, hgreatest⟩ := h.1 n hfound
    obtain ⟨w, hw, hne, hpre, hlength⟩ := mem_lengths_iff.1 hmem
    refine ⟨w, hw, hne, hpre, hlength, fun w' hw' hpre' => ?_⟩
    rcases eq_or_ne w' [] with rfl | hne'
    · exact Nat.zero_le _
    · rw [hlength]
      exact hgreatest (mem_lengths_iff.2 ⟨w', hw', hne', hpre', rfl⟩)
  · rintro ⟨w, hw, hne, hpre, rfl, hlongest⟩
    have hin : w.length ∈ lengths L s := mem_lengths_iff.2 ⟨w, hw, hne, hpre, rfl⟩
    cases found with
    | none =>
        rw [h.2 rfl] at hin
        exact absurd hin (Set.notMem_empty _)
    | some m =>
        obtain ⟨hmem, hgreatest⟩ := h.1 m rfl
        obtain ⟨w', hw', -, hpre', rfl⟩ := mem_lengths_iff.1 hmem
        rw [le_antisymm (hlongest w' hw' hpre') (hgreatest hin)]

section Scan

variable {i j p : Nat} {s' : List α} {ms : List (Nat × Nat)}

/-- The leftmost and longest matches from position `i` on, none of which overlap, with their
positions and lengths. -/
inductive LeftmostLongest (L : Language α) (s : List α) : Nat → List (Nat × Nat) → Prop
  | none {i : Nat} (hnone : ∀ p, i ≤ p → lengths L (s.drop p) = ∅) : LeftmostLongest L s i []
  | next {i p n : Nat} {ms : List (Nat × Nat)} (hfrom : i ≤ p) (hnone : ∀ q, i ≤ q → q < p →
        lengths L (s.drop q) = ∅)
      (hlongest : IsGreatest (lengths L (s.drop p)) n) (rest : LeftmostLongest L s (p + n) ms) :
      LeftmostLongest L s i ((p, n) :: ms)

/-- The position lies in one of the matches. -/
def Covered (ms : List (Nat × Nat)) (j : Nat) : Prop := ∃ m ∈ ms, m.1 ≤ j ∧ j < m.1 + m.2

instance (ms : List (Nat × Nat)) (j : Nat) : Decidable (Covered ms j) :=
  inferInstanceAs (Decidable (∃ m ∈ ms, _ ∧ _))

theorem covered_cons {m : Nat × Nat} : Covered (m :: ms) j ↔ (m.1 ≤ j ∧ j < m.1 + m.2) ∨
    Covered ms j := by
  unfold Covered
  rw [List.exists_mem_cons_iff]

/-- Only what the list goes on with counts. -/
theorem LeftmostLongest.congr (hsame : ∀ p, i ≤ p → s.drop p = s'.drop p)
    (h : LeftmostLongest L s i ms) :
    LeftmostLongest L s' i ms := by
  induction h with
  | none hnone => exact .none fun p hp => hsame p hp ▸ hnone p hp
  | next hfrom hnone hlongest _ ih =>
      refine .next hfrom (fun q hq hlt => hsame q hq ▸ hnone q hq hlt) (hsame _ hfrom ▸ hlongest) ?_
      exact ih fun q hq => hsame q (by omega)

/-- A position at which no match starts is passed over. -/
theorem LeftmostLongest.skip (hempty : lengths L (s.drop i) = ∅)
    (h : LeftmostLongest L s (i + 1) ms) :
    LeftmostLongest L s i ms := by
  have hat : ∀ q, i ≤ q → q = i ∨ i + 1 ≤ q := fun q hq => by omega
  cases h with
  | none hnone =>
      refine .none fun p hp => ?_
      rcases hat p hp with rfl | hlater
      · exact hempty
      · exact hnone p hlater
  | next hfrom hnone hlongest rest =>
      refine .next (by omega) (fun q hq hlt => ?_) hlongest rest
      rcases hat q hq with rfl | hlater
      · exact hempty
      · exact hnone q hlater hlt

/-- The matches lie behind the position from which they are looked for. -/
theorem LeftmostLongest.le_of_covered (h : LeftmostLongest L s i ms) (hj : Covered ms j) :
    i ≤ j := by
  induction h with
  | none => exact absurd hj (by simp [Covered])
  | next hfrom _ _ _ ih =>
      rcases covered_cons.1 hj with ⟨hle, -⟩ | hrest
      · exact hfrom.trans hle
      · have hle := ih hrest
        omega

/-- No match starts where none covers. -/
theorem LeftmostLongest.lengths_eq_empty (h : LeftmostLongest L s i ms) (hp : i ≤ p)
    (hnot : ¬Covered ms p) :
    lengths L (s.drop p) = ∅ := by
  induction h with
  | none hnone => exact hnone p hp
  | @next i q n ms hfrom hnone hlongest rest ih =>
      rw [covered_cons, not_or] at hnot
      by_cases hbefore : p < q
      · exact hnone p hp hbefore
      · exact ih (by omega) hnot.2

/-- A list without matches. -/
theorem LeftmostLongest.eq_nil (h : LeftmostLongest L s i ms)
    (hnone : ∀ p, lengths L (s.drop p) = ∅) :
    ms = [] := by
  cases h with
  | none => rfl
  | next _ _ hlongest _ =>
      have hmem := hlongest.1
      rw [hnone] at hmem
      exact hmem.elim

end Scan

end LongestMatch
