import Mathlib.Data.Char
import Mathlib.Data.List.Lex
import Mathlib.Data.Prod.Lex
import SdyServer.Pk10.Transfers

/-!
# The order of the doors

The doors are sorted by their points and then by the texts of their highest numbers. Texts of one
length are ordered as their numbers, and no two doors share a number, so every two doors of a draw
are ordered, and a door that comes later is beaten by one that comes earlier.
-/

namespace SdyServer.Pk10

section Numbers

theorem foldl_tonumber (hao : Hao) (n : ℕ) :
    hao.foldl (fun n c => 10 * n + (c.toNat - 48)) n = n * 10 ^ hao.length + tonumber hao := by
  induction hao generalizing n with
  | nil => simp [tonumber]
  | cons c hao ih =>
      rw [tonumber, List.foldl_cons, ih, List.foldl_cons, ih, List.length_cons, pow_succ]
      ring

theorem tonumber_cons (c : Char) (hao : Hao) :
    tonumber (c :: hao) = (c.toNat - 48) * 10 ^ hao.length + tonumber hao := by
  rw [tonumber, List.foldl_cons, foldl_tonumber, mul_zero, zero_add]

theorem isDigit_toNat {c : Char} (hc : c.isDigit = true) : 48 ≤ c.toNat ∧ c.toNat ≤ 57 := by
  rw [Char.isDigit, Bool.and_eq_true, decide_eq_true_eq, decide_eq_true_eq] at hc
  exact hc

theorem tonumber_lt {hao : Hao} (hdigits : ∀ c ∈ hao, c.isDigit = true) :
    tonumber hao < 10 ^ hao.length := by
  induction hao with
  | nil => simp [tonumber]
  | cons c hao ih =>
      rw [List.forall_mem_cons] at hdigits
      obtain ⟨hlow, hhigh⟩ := isDigit_toNat hdigits.1
      have hrest := ih hdigits.2
      rw [tonumber_cons, List.length_cons, pow_succ]
      have hnine : (c.toNat - 48) * 10 ^ hao.length ≤ 9 * 10 ^ hao.length :=
        Nat.mul_le_mul_right _ (by omega)
      omega

/-- **Texts of one length** are ordered as their numbers. -/
theorem lt_iff_tonumber_lt {a b : Hao} (ha : ∀ c ∈ a, c.isDigit = true)
    (hb : ∀ c ∈ b, c.isDigit = true) (hlength : a.length = b.length) :
    a < b ↔ tonumber a < tonumber b := by
  induction a generalizing b with
  | nil =>
      obtain rfl := List.length_eq_zero_iff.mp hlength.symm
      simp
  | cons c a ih =>
      cases b with
      | nil => cases hlength
      | cons d b =>
          rw [List.forall_mem_cons] at ha hb
          rw [List.length_cons, List.length_cons, Nat.add_right_cancel_iff] at hlength
          obtain ⟨hc, -⟩ := isDigit_toNat ha.1
          obtain ⟨hd, -⟩ := isDigit_toNat hb.1
          have hlt := tonumber_lt ha.2
          have hlt' := tonumber_lt hb.2
          rw [List.cons_lt_cons_iff, ih ha.2 hb.2 hlength, tonumber_cons, tonumber_cons, hlength]
          rw [hlength] at hlt
          have hchar : c < d ↔ c.toNat < d.toNat := Iff.rfl
          rw [hchar]
          have hstep : ∀ {m n : ℕ}, m < n → m * 10 ^ b.length + 10 ^ b.length ≤ n * 10 ^ b.length :=
            fun {m n} h => by simpa [Nat.succ_mul] using Nat.mul_le_mul_right (10 ^ b.length) h
          obtain hless | hsame | hmore := lt_trichotomy c.toNat d.toNat
          · have hdigit := @hstep (c.toNat - 48) (d.toNat - 48) (by omega)
            exact iff_of_true (.inl hless) (by omega)
          · have heq : c = d := Char.toNat_inj.mp hsame
            simp [heq]
          · have hdigit := @hstep (d.toNat - 48) (c.toNat - 48) (by omega)
            have hne : c ≠ d := fun h => by simp [h] at hmore
            exact iff_of_false (by rintro (h | ⟨h, -⟩) <;> [omega; exact hne h]) (by omega)

end Numbers

section Order

/-- The highest number of a door, as a text, is one of its numbers and above all of them. -/
theorem headD_tableSort {haos : List Hao} (hne : haos ≠ []) :
    (Lua.tableSort (fun a b => decide (b < a)) haos).headD [] ∈ haos ∧
      ∀ hao ∈ haos, hao ≤ (Lua.tableSort (fun a b => decide (b < a)) haos).headD [] := by
  have hlt : ∀ a b : Hao, decide (b < a) = true ↔ id b < id a := by simp
  have hsorted := Lua.pairwise_tableSort hlt haos
  have hperm : (Lua.tableSort (fun a b => decide (b < a)) haos).Perm haos :=
    List.perm_insertionSort _ _
  cases hsort : Lua.tableSort (fun a b => decide (b < a)) haos with
  | nil =>
      rw [hsort] at hperm
      exact absurd hperm.nil_eq.symm hne
  | cons hao rest =>
      rw [hsort] at hsorted hperm
      rw [List.headD_cons]
      refine ⟨hperm.subset (List.mem_cons_self ..), fun other hother => ?_⟩
      obtain rfl | hrest := List.mem_cons.mp (hperm.mem_iff.mpr hother)
      · exact le_rfl
      · exact (List.pairwise_cons.mp hsorted).1 other hrest

/-- The first door beats the second: it has more points, or as many and a number above all numbers
of the other. -/
def Beats (kj : Draw) (type i j : ℕ) : Prop :=
  niuniu2paijiu (getHaos j kj.kjHaos type) type < niuniu2paijiu (getHaos i kj.kjHaos type) type ∨
    niuniu2paijiu (getHaos j kj.kjHaos type) type = niuniu2paijiu (getHaos i kj.kjHaos type) type ∧
      ∃ hao ∈ getHaos i kj.kjHaos type, ∀ other ∈ getHaos j kj.kjHaos type,
        tonumber other < tonumber hao

theorem comparePoint_iff (a b : Info) :
    comparePoint a b = true ↔ toLex (b.point, b.haoMax) < toLex (a.point, a.haoMax) := by
  unfold comparePoint
  rw [Prod.Lex.toLex_lt_toLex]
  split_ifs with hmore hsame
  · simp [hmore]
  · simp [hsame]
  · simp
    omega

variable {kj : Draw} {type : ℕ} {totalBet : LuaTable Door Int} {i j width : ℕ}

theorem getHaos_subset (i : ℕ) (kjHaos : List Hao) (type : ℕ) : getHaos i kjHaos type ⊆ kjHaos := by
  intro hao hmem
  unfold getHaos at hmem
  split_ifs at hmem
  · exact List.mem_of_mem_drop (List.mem_of_mem_take hmem)
  · exact List.mem_of_mem_drop (List.mem_of_mem_take hmem)

theorem beats_of_comparePoint (hpadded : ∀ hao ∈ kj.kjHaos, hao.length = width)
    (hi : getHaos i kj.kjHaos type ≠ []) (hj : getHaos j kj.kjHaos type ≠ [])
    (h : comparePoint (doorInfo kj type totalBet i) (doorInfo kj type totalBet j) = true) :
    Beats kj type i j := by
  rw [comparePoint_iff, Prod.Lex.toLex_lt_toLex] at h
  obtain hmore | ⟨hsame, hmax⟩ := h
  · exact .inl hmore
  · obtain ⟨hmem, -⟩ := headD_tableSort hi
    obtain ⟨-, hle⟩ := headD_tableSort hj
    refine .inr ⟨hsame, _, hmem, fun other hother => ?_⟩
    have hmem' := getHaos_subset i kj.kjHaos type hmem
    have hother' := getHaos_subset j kj.kjHaos type hother
    rw [← lt_iff_tonumber_lt (kj.numeric _ hother').2 (kj.numeric _ hmem').2
      ((hpadded _ hother').trans (hpadded _ hmem').symm)]
    exact (hle other hother).trans_lt hmax

/-- The numbers of a draw that come before a door, and those of the door. -/
theorem exists_getHaos (kjHaos : List Hao) (type : ℕ) :
    ∃ size : ℕ, (size = if type = 1 then 2 else 5) ∧
      ∀ i, getHaos i kjHaos type = (kjHaos.drop ((i - 1) * size)).take size := by
  refine ⟨_, rfl, fun i => ?_⟩
  unfold getHaos
  split_ifs <;> rfl

theorem getHaos_disjoint (hdistinct : kj.kjHaos.Nodup) (hi : 1 ≤ i) (hij : i < j) {hao : Hao}
    (hmem : hao ∈ getHaos i kj.kjHaos type) : hao ∉ getHaos j kj.kjHaos type := by
  obtain ⟨size, -, hhaos⟩ := exists_getHaos kj.kjHaos type
  rw [hhaos] at hmem ⊢
  intro hmem'
  obtain ⟨m, hm, rfl⟩ := List.mem_take_iff_getElem.mp hmem
  obtain ⟨n, hn, heq⟩ := List.mem_take_iff_getElem.mp hmem'
  rw [List.getElem_drop, List.getElem_drop, hdistinct.getElem_inj_iff] at heq
  have hblock : (i - 1) * size + size ≤ (j - 1) * size := by
    have := Nat.mul_le_mul_right size (by omega : i - 1 + 1 ≤ j - 1)
    rwa [Nat.add_mul, Nat.one_mul] at this
  omega

end Order

end SdyServer.Pk10
