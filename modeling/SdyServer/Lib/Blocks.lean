import Mathlib.Algebra.BigOperators.Group.Finset.Basic
import Mathlib.Algebra.BigOperators.Group.Finset.Piecewise
import Mathlib.Algebra.BigOperators.Group.List.Basic
import Mathlib.Algebra.Order.BigOperators.Group.List
import Mathlib.Algebra.Order.Ring.Nat
import Mathlib.Data.List.Dedup
import Mathlib.Data.List.Flatten
import Mathlib.Data.List.Perm.Subperm
import Mathlib.Data.List.Sort

/-!
# Blocks of a list

The elements of a list that share a key form a block; the blocks stand in the order in which their
keys first occur. Taking some elements of some blocks takes each element of the list at most once.
-/

namespace Blocks

variable {α κ : Type*} [DecidableEq κ] {key : α → κ} {l : List α}

/-- The keys of a list, each of them once. -/
def keys (key : α → κ) (l : List α) : List κ := (l.map key).eraseDups

def block (key : α → κ) (l : List α) (k : κ) : List α := l.filter fun a => key a = k

def blocks (key : α → κ) (l : List α) : List (List α) := (keys key l).map (block key l)

section Keys

theorem keys_cons (a : α) (rest : List α) :
    keys key (a :: rest) = key a :: keys key (rest.filter fun b => key b ≠ key a) := by
  unfold keys
  rw [List.map_cons, List.eraseDups_cons, List.filter_map]
  congr 4
  funext b
  by_cases heq : key b = key a
  · simp [heq]
  · simp [heq]

theorem mem_keys {k : κ} : k ∈ keys key l ↔ ∃ a ∈ l, key a = k := by
  unfold keys
  rw [List.mem_eraseDups, List.mem_map]

theorem nodup_keys (key : α → κ) (l : List α) : (keys key l).Nodup := by
  induction hn : l.length using Nat.strong_induction_on generalizing l with
  | _ n ih =>
      match l with
      | [] => exact List.nodup_nil
      | a :: rest =>
          have hshort : (rest.filter fun b => key b ≠ key a).length < n := by
            rw [← hn, List.length_cons]
            exact Nat.lt_succ_of_le (List.length_filter_le ..)
          rw [keys_cons, List.nodup_cons, mem_keys]
          refine ⟨?_, ih _ hshort _ rfl⟩
          rintro ⟨b, hb, heq⟩
          exact of_decide_eq_true (List.mem_filter.1 hb).2 heq

theorem keys_perm (key : α → κ) (l : List α) : (keys key l).Perm (l.map key).dedup := by
  rw [List.perm_ext_iff_of_nodup (nodup_keys key l) (List.nodup_dedup _)]
  intro k
  rw [mem_keys, List.mem_dedup, List.mem_map]

/-- In a sorted list the keys rise. -/
theorem pairwise_keys [LinearOrder κ] (hsorted : l.Pairwise fun a b => key a ≤ key b) :
    (keys key l).Pairwise (· < ·) := by
  induction hn : l.length using Nat.strong_induction_on generalizing l with
  | _ n ih =>
      match l with
      | [] => exact List.Pairwise.nil
      | a :: rest =>
          have hshort : (rest.filter fun b => key b ≠ key a).length < n := by
            rw [← hn, List.length_cons]
            exact Nat.lt_succ_of_le (List.length_filter_le ..)
          obtain ⟨hle, hrest⟩ := List.pairwise_cons.1 hsorted
          rw [keys_cons, List.pairwise_cons]
          refine ⟨fun k hk => ?_, ih _ hshort (hrest.filter _) rfl⟩
          obtain ⟨b, hb, rfl⟩ := mem_keys.1 hk
          obtain ⟨hmem, hne⟩ := List.mem_filter.1 hb
          exact lt_of_le_of_ne (hle b hmem) (of_decide_eq_true hne).symm

end Keys

section Blocks

theorem mem_block {a : α} {k : κ} : a ∈ block key l k ↔ a ∈ l ∧ key a = k := by
  unfold block
  rw [List.mem_filter, decide_eq_true_eq]

theorem length_block (key : α → κ) (l : List α) (k : κ) :
    (block key l k).length = (l.map key).count k := by
  unfold block
  rw [← List.countP_eq_length_filter, List.count, List.countP_map]
  congr 1

theorem mem_blocks {b : List α} : b ∈ blocks key l ↔ ∃ k ∈ keys key l, block key l k = b :=
  List.mem_map

theorem ne_nil_of_mem_blocks {b : List α} (hb : b ∈ blocks key l) : b ≠ [] := by
  obtain ⟨k, hk, rfl⟩ := mem_blocks.1 hb
  obtain ⟨a, ha, hkey⟩ := mem_keys.1 hk
  exact List.ne_nil_of_mem (mem_block.2 ⟨ha, hkey⟩)

theorem key_eq_of_mem_blocks {b : List α} (hb : b ∈ blocks key l) {x y : α} (hx : x ∈ b)
    (hy : y ∈ b) :
    key x = key y := by
  obtain ⟨k, -, rfl⟩ := mem_blocks.1 hb
  rw [(mem_block.1 hx).2, (mem_block.1 hy).2]

/-- A block holds all elements with its key. -/
theorem eq_block {b : List α} (hb : b ∈ blocks key l) {x : α} (hx : x ∈ b) :
    b = block key l (key x) := by
  obtain ⟨k, -, rfl⟩ := mem_blocks.1 hb
  rw [(mem_block.1 hx).2]

theorem block_mem_blocks {a : α} (ha : a ∈ l) : block key l (key a) ∈ blocks key l :=
  mem_blocks.2 ⟨key a, mem_keys.2 ⟨a, ha, rfl⟩, rfl⟩

theorem key_ne_of_mem_blocks {b c : List α} (hb : b ∈ blocks key l) (hc : c ∈ blocks key l)
    (hne : b ≠ c)
    {x y : α} (hx : x ∈ b) (hy : y ∈ c) : key x ≠ key y := by
  intro heq
  rw [eq_block hb hx, eq_block hc hy, heq] at hne
  exact hne rfl

theorem pairwise_blocks [LinearOrder κ] (hsorted : l.Pairwise fun a b => key a ≤ key b) :
    (blocks key l).Pairwise fun b c => ∀ x ∈ b, ∀ y ∈ c, key x < key y := by
  unfold blocks
  rw [List.pairwise_map]
  refine (pairwise_keys hsorted).imp ?_
  intro j k hlt x hx y hy
  rw [(mem_block.1 hx).2, (mem_block.1 hy).2]
  exact hlt

theorem blocks_cons (a : α) (rest : List α) :
    blocks key (a :: rest) =
      block key (a :: rest) (key a) :: blocks key (rest.filter fun b => key b ≠ key a) := by
  unfold blocks
  rw [keys_cons, List.map_cons]
  congr 1
  refine List.map_congr_left fun k hk => ?_
  obtain ⟨b, hb, hkey⟩ := mem_keys.1 hk
  have hne : key b ≠ key a := of_decide_eq_true (List.mem_filter.1 hb).2
  unfold block
  rw [List.filter_cons_of_neg (by simpa using fun heq : key a = k => hne (hkey.trans heq.symm)),
    List.filter_filter]
  refine (List.filter_congr fun c _ => ?_).symm
  rw [← hkey]
  by_cases heq : key c = key b
  · simp [heq, hne]
  · simp [heq]

/-- How large the blocks are. -/
theorem length_blocks (key : α → κ) (l : List α) :
    (blocks key l).map List.length = (keys key l).map fun k => (l.map key).count k := by
  unfold blocks
  rw [List.map_map]
  exact List.map_congr_left fun k _ => length_block key l k

theorem length_blocks_perm (key : α → κ) (l : List α) :
    ((blocks key l).map List.length).Perm ((l.map key).dedup.map fun k => (l.map key).count k) := by
  rw [length_blocks]
  exact (keys_perm key l).map _

theorem flatten_blocks_perm (key : α → κ) (l : List α) : (blocks key l).flatten.Perm l := by
  induction hn : l.length using Nat.strong_induction_on generalizing l with
  | _ n ih =>
      match l with
      | [] => exact List.Perm.nil
      | a :: rest =>
          have hshort : (rest.filter fun b => key b ≠ key a).length < n := by
            rw [← hn, List.length_cons]
            exact Nat.lt_succ_of_le (List.length_filter_le ..)
          rw [blocks_cons, List.flatten_cons]
          refine ((ih _ hshort _ rfl).append_left _).trans ?_
          unfold block
          rw [List.filter_cons_of_pos (by simp), List.cons_append]
          refine List.Perm.cons a ?_
          have hsplit := List.filter_append_perm (fun b => decide (key b = key a)) rest
          simpa only [decide_not] using hsplit

theorem sum_length_blocks (key : α → κ) (l : List α) :
    ((blocks key l).map List.length).sum = l.length := by
  rw [← List.length_flatten, (flatten_blocks_perm key l).length_eq]

end Blocks

/-- Some elements of some blocks. -/
def Parts (key : α → κ) (l : List α) (parts : List (List α)) : Prop :=
  ∃ bs : List (List α), bs.Nodup ∧ (∀ b ∈ bs, b ∈ blocks key l) ∧
    List.Forall₂ (fun p b => p ≠ [] ∧ p.Sublist b) parts bs

namespace Parts

variable {parts : List (List α)}

theorem subperm (hparts : Parts key l parts) : parts.flatten.Subperm l := by
  obtain ⟨bs, hnodup, hmem, hall⟩ := hparts
  have hsublist : parts.flatten.Sublist bs.flatten := by
    clear hnodup hmem
    induction hall with
    | nil => exact List.Sublist.refl []
    | cons hp _ ih =>
        rw [List.flatten_cons, List.flatten_cons]
        exact hp.2.append ih
  have hblocks : bs.flatten.Subperm (blocks key l).flatten := by
    obtain ⟨cs, hperm, hcs⟩ := hnodup.subperm hmem
    exact ⟨cs.flatten, hperm.flatten, hcs.flatten⟩
  exact hsublist.subperm.trans (hblocks.trans (flatten_blocks_perm key l).subperm)

theorem ne_nil (hparts : Parts key l parts) : ∀ p ∈ parts, p ≠ [] := by
  obtain ⟨bs, -, -, hall⟩ := hparts
  induction hall with
  | nil => simp
  | cons hp _ ih =>
      rw [List.forall_mem_cons]
      exact ⟨hp.1, ih⟩

theorem key_eq (hparts : Parts key l parts) : ∀ p ∈ parts, ∀ x ∈ p, ∀ y ∈ p, key x = key y := by
  obtain ⟨bs, -, hmem, hall⟩ := hparts
  induction hall with
  | nil => simp
  | cons hp _ ih =>
      rw [List.forall_mem_cons] at hmem ⊢
      exact ⟨fun x hx y hy => key_eq_of_mem_blocks hmem.1 (hp.2.subset hx) (hp.2.subset hy),
        ih hmem.2⟩

theorem pairwise (hparts : Parts key l parts) :
    parts.Pairwise fun p q => ∀ x ∈ p, ∀ y ∈ q, key x ≠ key y := by
  obtain ⟨bs, hnodup, hmem, hall⟩ := hparts
  induction hall with
  | nil => exact List.Pairwise.nil
  | @cons p b ps bs hp hall ih =>
      rw [List.forall_mem_cons] at hmem
      rw [List.nodup_cons] at hnodup
      refine List.pairwise_cons.2 ⟨fun q hq x hx y hy => ?_, ih hnodup.2 hmem.2⟩
      obtain ⟨c, hc, hqc⟩ : ∃ c ∈ bs, q.Sublist c := by
        clear ih hmem hnodup
        induction hall with
        | nil => exact absurd hq List.not_mem_nil
        | cons hp' _ ih =>
            rcases List.mem_cons.1 hq with rfl | hq
            · exact ⟨_, List.mem_cons_self .., hp'.2⟩
            · obtain ⟨c, hc, hqc⟩ := ih hq
              exact ⟨c, List.mem_cons_of_mem _ hc, hqc⟩
      have hne : b ≠ c := fun heq => hnodup.1 (heq ▸ hc)
      exact key_ne_of_mem_blocks hmem.1 (hmem.2 c hc) hne (hp.2.subset hx) (hqc.subset hy)

/-- The parts are the blocks of what was taken. -/
theorem blocks_flatten (hparts : Parts key l parts) : blocks key parts.flatten = parts := by
  have hne := hparts.ne_nil
  have hkey := hparts.key_eq
  have hpair := hparts.pairwise
  clear hparts
  induction parts with
  | nil => rfl
  | cons p ps ih =>
      rw [List.forall_mem_cons] at hne hkey
      obtain ⟨hcross, hrest⟩ := List.pairwise_cons.1 hpair
      match p, hne.1, hkey.1, hcross with
      | a :: p', _, hconst, hcross =>
          have hother : ∀ x ∈ ps.flatten, key x ≠ key a := by
            intro x hx
            obtain ⟨q, hq, hxq⟩ := List.mem_flatten.1 hx
            exact (hcross q hq a (List.mem_cons_self ..) x hxq).symm
          have hsame : ∀ x ∈ p', key x = key a := fun x hx =>
            hconst x (List.mem_cons_of_mem _ hx) a (List.mem_cons_self ..)
          rw [List.flatten_cons, List.cons_append, blocks_cons, List.filter_append,
            List.filter_eq_nil_iff.2 fun x hx => by simp [hsame x hx], List.nil_append,
            List.filter_eq_self.2 fun x hx => by simp [hother x hx], ih hne.2 hkey.2 hrest]
          unfold block
          rw [List.filter_cons_of_pos (by simp), List.filter_append,
            List.filter_eq_self.2 fun x hx => by simp [hsame x hx],
            List.filter_eq_nil_iff.2 fun x hx => by simp [hother x hx], List.append_nil]

end Parts

section Sets

variable [DecidableEq α] {as : List α} {k m : Nat}

theorem count_sets (k : Nat) (as : List α) (a : α) :
    (as.flatMap (List.replicate k)).count a = k * as.count a := by
  induction as with
  | nil => simp
  | cons b as ih =>
      rw [List.flatMap_cons, List.count_append, ih, List.count_replicate, List.count_cons]
      by_cases hba : b = a
      · simp [hba, Nat.mul_add, Nat.add_comm]
      · simp [hba]

theorem sum_count_eq_length {bs : List α} (hnodup : bs.Nodup) (hsubset : as ⊆ bs) :
    (bs.map fun b => as.count b).sum = as.length := by
  rw [← List.sum_toFinset _ hnodup, ← List.sum_toFinset_count_eq_length as]
  refine (Finset.sum_subset (fun a ha => ?_) fun a _ ha => ?_).symm
  · rw [List.mem_toFinset] at ha ⊢
    exact hsubset ha
  · rw [List.mem_toFinset] at ha
    exact List.count_eq_zero_of_not_mem ha

theorem count_copies_le {bs : List α} (hnodup : bs.Nodup) (c : α → Nat) (a : α) :
    (bs.flatMap fun b => List.replicate (c b) b).count a ≤ c a := by
  rw [List.count_flatMap, ← List.sum_toFinset _ hnodup]
  have hone : ∀ b ∈ bs.toFinset, (List.count a ∘ fun b => List.replicate (c b) b) b =
      if b = a then c b else 0 := by
    intro b _
    simp [List.count_replicate]
  rw [Finset.sum_congr rfl hone, Finset.sum_ite_eq']
  split_ifs <;> omega

/-- Sets of `k` equal elements that can be taken at once. -/
theorem exists_sets_iff (hk : 0 < k) :
    (∃ as : List α, as.length = m ∧ (as.flatMap (List.replicate k)).Subperm l) ↔
      m ≤ (l.dedup.map fun a => l.count a / k).sum := by
  constructor
  · rintro ⟨as, rfl, hsub⟩
    have hcount : ∀ a, as.count a ≤ l.count a / k := by
      intro a
      have hle := hsub.count_le a
      rw [count_sets] at hle
      rw [Nat.le_div_iff_mul_le hk, Nat.mul_comm]
      exact hle
    have hsubset : as ⊆ l.dedup := by
      intro a ha
      have hpos := List.count_pos_iff.2 ha
      have hle := hcount a
      have hdiv := Nat.div_le_self (l.count a) k
      exact List.mem_dedup.2 (List.count_pos_iff.1 (by omega))
    rw [← sum_count_eq_length l.nodup_dedup hsubset]
    exact List.sum_le_sum fun a _ => hcount a
  · intro hm
    refine ⟨(l.dedup.flatMap fun a => List.replicate (l.count a / k) a).take m, ?_, ?_⟩
    · rw [List.length_take, List.length_flatMap]
      simp only [List.length_replicate]
      omega
    · rw [List.subperm_ext_iff]
      intro a _
      rw [count_sets]
      have hle := ((List.take_sublist m
        (l.dedup.flatMap fun a => List.replicate (l.count a / k) a)).count_le a).trans
        (count_copies_le l.nodup_dedup (fun a => l.count a / k) a)
      have hmul := Nat.mul_le_mul_left k hle
      have hdiv := Nat.mul_div_le (l.count a) k
      omega

end Sets

end Blocks
