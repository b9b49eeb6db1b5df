import Mathlib.Data.List.Dedup
import Mathlib.Data.List.Perm.Basic
import SdyServer.Daboluo.Card

/-!
# Categories of rows

What a row of a type is: how often its values occur, whether they follow each other, and whether it
has one suit.
-/

namespace SdyServer.Daboluo

def values (row : List Card) : List Int := row.map Card.value

/-- High to low. -/
def desc (vs : List Int) : List Int := vs.insertionSort (· ≥ ·)

/-- The more frequent value comes first, and the higher one of two that are equally frequent. -/
def Precedes (vs : List Int) (x y : Int) : Prop :=
  vs.count y < vs.count x ∨ vs.count x = vs.count y ∧ y ≤ x

instance (vs : List Int) : DecidableRel (Precedes vs) :=
  fun _ _ => inferInstanceAs (Decidable (_ ∨ _))

/-- The values of a row, each of them once. -/
def groups (vs : List Int) : List Int := vs.dedup.insertionSort (Precedes vs)

/-- How often the values of a row occur. -/
def shape (vs : List Int) : List Nat := (groups vs).map fun v => vs.count v

/-- The straights from the best down; the one from the ace to the five is the second best. -/
def straights : List (List Int) :=
  [[13, 12, 11, 10, 9], [13, 4, 3, 2, 1], [12, 11, 10, 9, 8], [11, 10, 9, 8, 7], [10, 9, 8, 7, 6],
    [9, 8, 7, 6, 5], [8, 7, 6, 5, 4], [7, 6, 5, 4, 3], [6, 5, 4, 3, 2], [5, 4, 3, 2, 1]]

def Straight (vs : List Int) : Prop := desc vs ∈ straights

def Flush (row : List Card) : Prop := ∀ c ∈ row, ∀ d ∈ row, c.type = d.type

instance (vs : List Int) : Decidable (Straight vs) := inferInstanceAs (Decidable (_ ∈ _))

instance (row : List Card) : Decidable (Flush row) := inferInstanceAs (Decidable (∀ c ∈ row, _))

/-- The row is one of type `t`. Any row is one of type 1. -/
def IsRow (t : Int) (row : List Card) : Prop :=
  match t with
  | 1 => True
  | 2 => shape (values row) = [2, 1, 1, 1] ∨ shape (values row) = [2, 1]
  | 3 => shape (values row) = [2, 2, 1]
  | 4 => shape (values row) = [3, 1, 1] ∨ shape (values row) = [3]
  | 5 => Straight (values row)
  | 6 => Flush row ∧ ¬Straight (values row)
  | 7 => shape (values row) = [3, 2]
  | 8 => shape (values row) = [4, 1]
  | 9 => Flush row ∧ Straight (values row)
  | 10 => shape (values row) = [5]
  | _ => False

instance (t : Int) (row : List Card) : Decidable (IsRow t row) := by
  unfold IsRow
  split <;> infer_instance

section Sorting

variable {vs ws : List Int}

theorem desc_perm (vs : List Int) : (desc vs).Perm vs := List.perm_insertionSort _ _

theorem pairwise_desc (vs : List Int) : (desc vs).Pairwise (· ≥ ·) :=
  List.pairwise_insertionSort _ _

theorem eq_desc (hsorted : ws.Pairwise (· ≥ ·)) (hperm : ws.Perm vs) : ws = desc vs :=
  (hperm.trans (desc_perm vs).symm).eq_of_pairwise' hsorted (pairwise_desc vs)

theorem desc_eq_of_perm (hperm : vs.Perm ws) : desc vs = desc ws :=
  eq_desc (pairwise_desc vs) ((desc_perm vs).trans hperm)

theorem desc_of_sorted (hsorted : vs.Pairwise (· ≤ ·)) : desc vs = vs.reverse :=
  (eq_desc (List.pairwise_reverse.2 hsorted) (List.reverse_perm vs)).symm

instance (vs : List Int) : Std.Total (Precedes vs) where
  total x y := by
    unfold Precedes
    omega

instance (vs : List Int) : IsTrans Int (Precedes vs) where
  trans x y z := by
    unfold Precedes
    omega

instance (vs : List Int) : Std.Antisymm (Precedes vs) where
  antisymm x y := by
    unfold Precedes
    omega

theorem groups_perm (vs : List Int) : (groups vs).Perm vs.dedup := List.perm_insertionSort _ _

theorem pairwise_groups (vs : List Int) : (groups vs).Pairwise (Precedes vs) :=
  List.pairwise_insertionSort _ _

theorem nodup_groups (vs : List Int) : (groups vs).Nodup :=
  (groups_perm vs).nodup_iff.2 vs.nodup_dedup

theorem mem_groups {v : Int} : v ∈ groups vs ↔ v ∈ vs := by
  rw [(groups_perm vs).mem_iff, List.mem_dedup]

theorem groups_eq_of_perm (hperm : vs.Perm ws) : groups vs = groups ws := by
  have hcount : Precedes vs = Precedes ws := by
    funext x y
    unfold Precedes
    rw [hperm.count_eq, hperm.count_eq]
  have hsorted := pairwise_groups vs
  rw [hcount] at hsorted
  exact (((groups_perm vs).trans hperm.dedup).trans (groups_perm ws).symm).eq_of_pairwise' hsorted
    (pairwise_groups ws)

theorem shape_eq_of_perm (hperm : vs.Perm ws) : shape vs = shape ws := by
  unfold shape
  rw [groups_eq_of_perm hperm]
  exact List.map_congr_left fun v _ => hperm.count_eq v

/-- A row consists of its groups. -/
theorem perm_flatMap_groups (vs : List Int) :
    vs.Perm ((groups vs).flatMap fun v => List.replicate (vs.count v) v) := by
  rw [List.perm_iff_count]
  intro v
  rw [List.count_flatMap]
  have hcount : (List.count v ∘ fun w => List.replicate (vs.count w) w) =
      fun w => if w = v then vs.count v else 0 := by
    funext w
    rw [Function.comp_apply, List.count_replicate]
    by_cases heq : w = v
    · simp [heq]
    · simp [heq]
  rw [hcount, List.sum_map_eq_nsmul_single v _ fun w hne _ => if_neg hne, if_pos rfl]
  by_cases hmem : v ∈ vs
  · rw [List.count_eq_one_of_mem (nodup_groups vs) (mem_groups.2 hmem), one_nsmul]
  · rw [List.count_eq_zero_of_not_mem hmem, nsmul_zero]

theorem zip_map_self {α β : Type*} (l : List α) (f : α → β) :
    l.zip (l.map f) = l.map fun a => (a, f a) := by
  have hzip := List.zip_map' (f := id) (g := f) (l := l)
  rwa [List.map_id] at hzip

/-- What a shape says about a row. -/
theorem groups_of_shape {ns : List Nat} (hshape : shape vs = ns) :
    ∃ gs, groups vs = gs ∧ gs.length = ns.length ∧ gs.Nodup ∧
      vs.Perm ((gs.zip ns).flatMap fun p => List.replicate p.2 p.1) ∧
      (gs.zip ns).Pairwise fun p q => p.2 = q.2 → q.1 < p.1 := by
  subst hshape
  refine ⟨groups vs, rfl, (List.length_map _).symm, nodup_groups vs, ?_, ?_⟩
  · unfold shape
    rw [zip_map_self, List.flatMap_map]
    exact perm_flatMap_groups vs
  · unfold shape
    rw [zip_map_self, List.pairwise_map]
    refine (List.Pairwise.and (pairwise_groups vs) (nodup_groups vs)).imp ?_
    rintro x y ⟨hprec, hne⟩ heq
    unfold Precedes at hprec
    have hcount : vs.count x = vs.count y := heq
    show y < x
    omega

end Sorting

section Shapes

variable {vs : List Int}

theorem flatMap_zip_singles {k : Nat} {ks : List Int} (hlength : ks.length = k) :
    ((ks.zip (List.replicate k 1)).flatMap fun p => List.replicate p.2 p.1) = ks := by
  subst hlength
  induction ks with
  | nil => rfl
  | cons v ks ih =>
      rw [List.length_cons, List.replicate_succ, List.zip_cons_cons, List.flatMap_cons, ih]
      rfl

/-- A value that occurs more than once, and single ones from high to low. -/
theorem groups_kickers {n k : Nat} (hshape : shape vs = n :: List.replicate k 1) :
    ∃ a ks, groups vs = a :: ks ∧ ks.length = k ∧ a ∉ ks ∧ ks.Pairwise (· > ·) ∧
      vs.Perm (List.replicate n a ++ ks) := by
  obtain ⟨gs, hgroups, hlength, hnodup, hperm, hpair⟩ := groups_of_shape hshape
  match gs, hlength with
  | a :: ks, hlength =>
      have hk : ks.length = k := by simpa using hlength
      rw [List.zip_cons_cons, List.flatMap_cons, flatMap_zip_singles hk] at hperm
      refine ⟨a, ks, hgroups, hk, (List.nodup_cons.1 hnodup).1, ?_, hperm⟩
      rw [List.zip_cons_cons, List.pairwise_cons] at hpair
      have hsingles : ks.zip (List.replicate k 1) = ks.map fun v => (v, 1) := by
        rw [← hk, ← List.map_const', zip_map_self]
      have hsorted := hpair.2
      rw [hsingles, List.pairwise_map] at hsorted
      exact hsorted.imp fun h => h rfl

theorem groups_hulu (hshape : shape vs = [3, 2]) :
    ∃ a b, groups vs = [a, b] ∧ a ≠ b ∧ vs.Perm [a, a, a, b, b] := by
  obtain ⟨gs, hgroups, hlength, hnodup, hperm, -⟩ := groups_of_shape hshape
  match gs, hlength with
  | [a, b], _ => exact ⟨a, b, hgroups, by simpa using hnodup, hperm⟩

theorem groups_liangdui (hshape : shape vs = [2, 2, 1]) :
    ∃ a b c, groups vs = [a, b, c] ∧ b < a ∧ a ≠ c ∧ b ≠ c ∧ vs.Perm [a, a, b, b, c] := by
  obtain ⟨gs, hgroups, hlength, hnodup, hperm, hpair⟩ := groups_of_shape hshape
  match gs, hlength with
  | [a, b, c], _ =>
      have hne : (a ≠ b ∧ a ≠ c) ∧ b ≠ c := by simpa using hnodup
      exact ⟨a, b, c, hgroups, by simpa using hpair, hne.1.2, hne.2, hperm⟩

/-- In a sorted row a value that occurs three times stands in the middle of five cards. -/
theorem third_eq (hsorted : vs.Pairwise (· ≤ ·)) (hlength : vs.length = 3 ∨ vs.length = 5) {a : Int}
    (hcount : 3 ≤ vs.count a) : vs[2]? = some a := by
  rcases hlength with hlength | hlength
  · match vs, hlength with
    | [x, y, z], _ =>
        simp only [List.count_cons, List.count_nil, beq_iff_eq] at hcount
        have hz : z = a := by
          by_contra hne
          rw [if_neg hne] at hcount
          split_ifs at hcount <;> omega
        rw [hz]
        rfl
  · match vs, hlength with
    | [x, y, z, u, w], _ =>
        simp only [List.pairwise_cons, List.mem_cons, List.not_mem_nil, or_false, forall_eq_or_imp,
          forall_eq] at hsorted
        obtain ⟨⟨hxy, hxz, -⟩, ⟨hyz, -⟩, ⟨hzu, hzw⟩, -⟩ := hsorted
        simp only [List.count_cons, List.count_nil, beq_iff_eq] at hcount
        have hz : z = a := by
          rcases lt_trichotomy z a with hlt | heq | hgt
          · rw [if_neg (show ¬x = a by omega), if_neg (show ¬y = a by omega),
              if_neg hlt.ne] at hcount
            split_ifs at hcount <;> omega
          · exact heq
          · rw [if_neg (show ¬u = a by omega), if_neg (show ¬w = a by omega),
              if_neg hgt.ne'] at hcount
            split_ifs at hcount <;> omega
        rw [hz]
        rfl

end Shapes

end SdyServer.Daboluo
