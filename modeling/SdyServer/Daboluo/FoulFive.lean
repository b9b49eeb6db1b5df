import SdyServer.Daboluo.CompareOrder

/-!
# The foul test of the two rows of five

`isMessireFive` is the order of `compare` a second time, on rows that it sorts itself. The two agree
on all rows of a type but for ties: where the cards are compared one by one, rows of the same values
make the test answer nil or, of two flushes, that the second row wins.
-/

namespace SdyServer.Daboluo

open ThreeWay

variable {t : Int} {a b : List Card}

section Statement

/-- The scoring comparison of the two sorted rows says that `b` wins. -/
def Beaten (fn : Nat → List Card → List Card → Lua (Option Bool)) (a b : List Card) : Prop :=
  fn 1 (Lua.tableSort sortDescent a) (Lua.tableSort sortDescent b) = .ok (some false)

/-- The foul test says that `b` beats `a` when it does and that it does not when it does not. -/
def Agrees (t : Int) (a b : List Card) : Prop :=
  ∀ fn, compare t = some fn →
    (isMessireFive t a b = .ok (some true) ↔ Beaten fn a b) ∧
      (isMessireFive t a b = .ok (some false) ↔ ¬Beaten fn a b)

/-- A row of five of type `t`, in any order. -/
structure RowOfFive (t : Int) (row : List Card) : Prop where
  length : row.length = 5
  isRow : IsRow t row

end Statement

section Sorted

theorem isRow_of_perm (hperm : a.Perm b) (hrow : IsRow t a) : IsRow t b := by
  have hvalues : (values a).Perm (values b) := hperm.map Card.value
  have hflush : Flush a → Flush b := fun hflush c hc d hd =>
    hflush c (hperm.mem_iff.2 hc) d (hperm.mem_iff.2 hd)
  unfold IsRow Straight at hrow ⊢
  rw [← shape_eq_of_perm hvalues, ← desc_eq_of_perm hvalues]
  split at hrow
  all_goals first
    | exact hrow
    | exact hrow.imp_left hflush

theorem RowOfFive.length_values (ha : RowOfFive t a) : (values a).length = 5 :=
  (List.length_map _).trans ha.length

theorem pairwise_values_sortDescent (row : List Card) :
    (values (Lua.tableSort sortDescent row)).Pairwise (· ≤ ·) := by
  rw [values, List.pairwise_map]
  exact (pairwise_sortDescent row).imp fun h => by omega

theorem RowOfFive.take_eq (ha : RowOfFive t a) (hperm : b.Perm a) :
    (b.drop (1 - 1)).take (if 1 = 11 then 3 else 5) = b :=
  List.take_of_length_le (hperm.length_eq.trans ha.length).le

theorem RowOfFive.first_le (ha : RowOfFive t a) (hperm : b.Perm a)
    (hsorted : (values b).Pairwise (· ≤ ·)) :
    val b 1 ≤ val b 2 := by
  match b, hperm.length_eq.trans ha.length, hsorted with
  | c :: d :: rest, _, hsorted =>
      have hle : c.value ≤ d.value := (List.pairwise_cons.1 hsorted).1 d.value List.mem_cons_self
      exact hle

theorem RowOfFive.rowValues_eq (ha : RowOfFive t a) (hperm : b.Perm a) : rowValues 1 b = values b :=
  congrArg values (ha.take_eq hperm)

theorem RowOfFive.pairwise_rowValues (ha : RowOfFive t a) (hperm : b.Perm a)
    (hsorted : (values b).Pairwise (· ≤ ·)) : (rowValues 1 b).Pairwise (· ≤ ·) :=
  ha.rowValues_eq hperm ▸ hsorted

theorem RowOfFive.isRow_take (ha : RowOfFive t a) (hperm : b.Perm a) :
    IsRow t ((b.drop (1 - 1)).take (if 1 = 11 then 3 else 5)) := by
  rw [ha.take_eq hperm]
  exact isRow_of_perm hperm.symm ha.isRow

theorem RowOfFive.enough (ha : RowOfFive t a) (hperm : b.Perm a) :
    1 - 1 + (if 1 = 11 then 3 else 5) ≤ b.length :=
  (hperm.length_eq.trans ha.length).ge

/-- A row that is sorted, as the bottom row of a submission. -/
def RowOfFive.placed (ha : RowOfFive t a) (hperm : b.Perm a)
    (hsorted : (values b).Pairwise (· ≤ ·)) :
    PlacedRow 1 t :=
  ⟨b, ha.enough hperm, ha.first_le hperm hsorted, ha.pairwise_rowValues hperm hsorted,
    ha.isRow_take hperm⟩

theorem RowOfFive.placed_perm (ha : RowOfFive t a) (hperm : b.Perm a)
    (hsorted : (values b).Pairwise (· ≤ ·)) : (ha.placed hperm hsorted).values.Perm (values a) := by
  show (rowValues 1 b).Perm (values a)
  rw [ha.rowValues_eq hperm]
  exact hperm.map Card.value

theorem rowKey_eq_of_perm {vs ws : List Int} (hperm : vs.Perm ws) : rowKey t vs = rowKey t ws := by
  unfold rowKey reference
  rw [desc_eq_of_perm hperm, groups_eq_of_perm hperm]

theorem beaten_iff (ht : 1 ≤ t ∧ t ≤ 10) {fn : Nat → List Card → List Card → Lua (Option Bool)}
    (hfn : compare t = some fn) (ha : RowOfFive t a) (hb : RowOfFive t b) :
    Beaten fn a b ↔ verdict (rowKey t (values a)) (rowKey t (values b)) = some false := by
  obtain ⟨fn', hfn', hkey⟩ := @compare_key 1 t ht (Or.inl rfl)
  cases Option.some.inj (hfn.symm.trans hfn')
  have hperm := Lua.tableSort_perm sortDescent
  have hsorted := pairwise_values_sortDescent
  have hok := hkey (ha.placed (hperm a) (hsorted a)) (hb.placed (hperm b) (hsorted b))
  rw [rowKey_eq_of_perm (ha.placed_perm ..), rowKey_eq_of_perm (hb.placed_perm ..)] at hok
  unfold Beaten
  show fn 1 (ha.placed (hperm a) (hsorted a)).cards (hb.placed (hperm b) (hsorted b)).cards = _ ↔ _
  rw [hok, Except.ok.injEq]

end Sorted

section Reading

theorem valueAt_sorted {j : Nat} {x : Int} (hx : (desc (values a))[j]? = some x) :
    valueAt (Lua.tableSort (fun x y => decide (x.value > y.value)) a) (j + 1) = .ok x := by
  rw [← map_value_tableSort, List.getElem?_map, Option.map_eq_some_iff] at hx
  obtain ⟨c, hc, rfl⟩ := hx
  simp only [valueAt, Lua.elem, Lua.nth, if_neg (Nat.succ_ne_zero j), Nat.add_sub_cancel, hc]
  rfl

theorem desc_third {vs : List Int} (hlength : vs.length = 5) {n k : Nat}
    (hvs : shape vs = n :: List.replicate k 1) (hn : 3 ≤ n) :
    (desc vs)[2]? = (groups vs).head? := by
  have hsorted : (desc vs).reverse.Pairwise (· ≤ ·) := List.pairwise_reverse.2 (pairwise_desc vs)
  have hperm : (desc vs).reverse.Perm vs := (List.reverse_perm _).trans (desc_perm vs)
  have hthird := third_of_shape hsorted ((shape_eq_of_perm hperm).trans hvs) hn
    (Or.inr (hperm.length_eq.trans hlength))
  rw [groups_eq_of_perm hperm] at hthird
  rw [← hthird]
  have hfive : (desc vs).length = 5 := (desc_perm vs).length_eq.trans hlength
  match desc vs, hfive with
  | [_, _, _, _, _], _ => rfl

theorem take_five (ha : RowOfFive t a) : a.take 5 = a := List.take_of_length_le ha.length.le

end Reading

section Types

/-- Five of a kind and four of a kind: the middle cards are compared. -/
theorem isMessireFive_middle (ht : t = 10 ∨ t = 8) (ha : RowOfFive t a)
    (hb : RowOfFive t b) {n k : Nat}
    (hn : 3 ≤ n) (hrow : shape (values a) = n :: List.replicate k 1)
    (hother : shape (values b) = n :: List.replicate k 1) :
    isMessireFive t a b = .ok (some (verdict ((groups (values a)).take 1)
      ((groups (values b)).take 1) == some false)) := by
  obtain ⟨x, ks, hgroups, -⟩ := groups_kickers hrow
  obtain ⟨y, ls, hgroups', -⟩ := groups_kickers hother
  have hx := desc_third ha.length_values hrow hn
  have hy := desc_third hb.length_values hother hn
  rw [hgroups, List.head?_cons] at hx
  rw [hgroups', List.head?_cons] at hy
  have hsix : ¬t = 6 := by omega
  simp only [isMessireFive, if_neg hsix, if_pos ht, take_five ha, take_five hb, valueAt_sorted hx,
    valueAt_sorted hy, Lua.ok_bind, Lua.pure_eq_ok, hgroups, hgroups', List.take_succ_cons,
      List.take_zero]
  rw [verdict_singleton, verdict_beq_false]

theorem isMessireFive_tonghua (ha : RowOfFive 6 a) (hb : RowOfFive 6 b) :
    isMessireFive 6 a b =
      .ok (some (verdict (desc (values a)) (desc (values b)) != some true)) := by
  have hperm := Lua.tableSort_perm fun x y : Card => decide (x.value < y.value)
  have hsorted : ∀ row : List Card,
      (values (Lua.tableSort (fun x y => decide (x.value < y.value)) row)).Pairwise (· ≤ ·) := by
    intro row
    rw [values, List.pairwise_map]
    refine (Lua.pairwise_tableSort_of (fun x y => ?_) (fun x y z => ?_) row).imp fun h => ?_
    · simp only [decide_eq_false_iff_not, not_lt]
      exact le_total _ _
    · simp only [decide_eq_false_iff_not, not_lt]
      exact fun hxy hyz => hxy.trans hyz
    · simpa using h
  have hfind :=
    findBig_eq (ha.placed (hperm a) (hsorted a)) (hb.placed (hperm b) (hsorted b)) (Or.inl rfl)
  rw [desc_eq_of_perm (ha.placed_perm ..), desc_eq_of_perm (hb.placed_perm ..)] at hfind
  simp only [isMessireFive, if_true, take_five ha, take_five hb]
  show findBig 1 (ha.placed (hperm a) (hsorted a)).cards (hb.placed (hperm b) (hsorted b)).cards >>=
    _ = _
  rw [hfind]
  rfl

theorem desc_hulu {vs : List Int} (hshape : shape vs = [3, 2]) :
    ∃ x y, groups vs = [x, y] ∧ x ≠ y ∧
    (desc vs = [x, x, x, y, y] ∨ desc vs = [y, y, x, x, x]) := by
  obtain ⟨x, y, hgroups, hne, hperm⟩ := groups_hulu hshape
  refine ⟨x, y, hgroups, hne, ?_⟩
  rcases hne.lt_or_gt with hlt | hgt
  · have hswap : [y, y, x, x, x].Perm [x, x, x, y, y] := @List.perm_append_comm _ [y, y] [x, x, x]
    exact Or.inr (eq_desc (by simp [hlt.le]) (hswap.trans hperm.symm)).symm
  · exact Or.inl (eq_desc (by simp [hgt.le]) hperm.symm).symm

theorem isMessireFive_hulu (ha : RowOfFive 7 a) (hb : RowOfFive 7 b) :
    isMessireFive 7 a b =
      .ok (some (verdict (groups (values a)) (groups (values b)) == some false)) := by
  obtain ⟨x, y, hgroups, hne, hlayout⟩ := desc_hulu ha.isRow
  obtain ⟨x', y', hgroups', hne', hlayout'⟩ := desc_hulu hb.isRow
  have hread : ∀ {row : List Card} {v1 v2 v3 v4 v5 : Int}, desc (values row) =
      [v1, v2, v3, v4, v5] →
      ∀ j x, [v1, v2, v3, v4, v5][j]? = some x →
        valueAt (Lua.tableSort (fun x y => decide (x.value > y.value)) row) (j + 1) = .ok x :=
    fun hdesc j x hx => valueAt_sorted (hdesc ▸ hx)
  rw [hgroups, hgroups', verdict_cons]
  rcases hlayout with hdesc | hdesc <;> rcases hlayout' with hdesc' | hdesc' <;>
  · simp only [isMessireFive, take_five ha, take_five hb, Int.reduceEq, or_self, if_false, if_true,
      hread hdesc 0 _ rfl, hread hdesc 2 _ rfl, hread hdesc 3 _ rfl, hread hdesc 4 _ rfl,
      hread hdesc' 0 _ rfl, hread hdesc' 2 _ rfl, hread hdesc' 3 _ rfl, hread hdesc' 4 _ rfl,
      Lua.ok_bind, Lua.pure_eq_ok, verdict_singleton]
    by_cases heq : x = x'
    · subst heq
      simp [hne.symm, hne'.symm, verdict_beq_false]
    · simp only [heq, if_false]
      rw [← verdict_of_ne heq, verdict_beq_false]

theorem splitPairs_singles_append {l rest wl : List Int} (hl : l.Nodup)
    (hrest : ∀ v ∈ l, v ∉ rest) :
    splitPairs (l ++ rest) [] wl = splitPairs rest [] (wl ++ l) := by
  induction l generalizing wl with
  | nil => rw [List.append_nil, List.nil_append]
  | cons v l ih =>
      rw [List.nodup_cons] at hl
      have hhead : ¬((l ++ rest).head? = some v ∨ ([] : List Int).getLast? = some v) := by
        rintro (hhead | hlast)
        · rcases List.mem_append.1 (List.mem_of_head? hhead) with hmem | hmem
          · exact hl.1 hmem
          · exact hrest v List.mem_cons_self hmem
        · cases hlast
      rw [List.cons_append, splitPairs, if_neg hhead,
        ih hl.2 fun v hv => hrest v (List.mem_cons_of_mem _ hv),
        List.append_assoc, List.singleton_append]

theorem splitPairs_singles {l dz wl : List Int} (hl : l.Nodup) (hdz : ∀ v ∈ l, v ∉ dz) :
    splitPairs l dz wl = (dz, wl ++ l) := by
  induction l generalizing wl with
  | nil => rw [List.append_nil, splitPairs]
  | cons v l ih =>
      rw [List.nodup_cons] at hl
      have hhead : ¬(l.head? = some v ∨ dz.getLast? = some v) := by
        rintro (hhead | hlast)
        · exact hl.1 (List.mem_of_head? hhead)
        · exact hdz v List.mem_cons_self (List.mem_of_getLast? hlast)
      rw [splitPairs, if_neg hhead, ih hl.2 fun v hv => hdz v (List.mem_cons_of_mem _ hv),
        List.append_assoc,
        List.singleton_append]

/-- A value that occurs at least twice goes to the pairs as often as it occurs. -/
theorem splitPairs_run (n : Nat) (x : Int) (rest dz wl : List Int) :
    splitPairs (List.replicate (n + 2) x ++ rest) dz wl =
      splitPairs rest (dz ++ List.replicate (n + 2) x) wl := by
  induction n generalizing dz with
  | zero => simp [splitPairs, List.replicate_succ]
  | succ n ih =>
      rw [List.replicate_succ, List.cons_append, splitPairs, if_pos, ih, List.append_assoc,
        List.singleton_append]
      left
      rw [List.replicate_succ]
      rfl

theorem desc_kickers {vs ks : List Int} {n : Nat} {x : Int} (hnotMem : x ∉ ks)
    (hsorted : ks.Pairwise (· > ·)) (hperm : vs.Perm (List.replicate n x ++ ks)) :
    desc vs = ks.filter (x < ·) ++ (List.replicate n x ++ ks.filter (· < x)) ∧
      ks.filter (x < ·) ++ ks.filter (· < x) = ks := by
  have hhigh : ∀ v ∈ ks.filter (x < ·), x < v := fun v hv => by simpa using List.of_mem_filter hv
  have hlow : ∀ v ∈ ks.filter (· < x), v < x := fun v hv => by simpa using List.of_mem_filter hv
  have hfalling : ks.Pairwise (· ≥ ·) := hsorted.imp le_of_lt
  have hsplit : (ks.filter (x < ·) ++ ks.filter (· < x)).Perm ks := by
    have hnot : ks.filter (· < x) = ks.filter fun v => !decide (x < v) := by
      refine List.filter_congr fun v hv => ?_
      have hne : x ≠ v := fun heq => hnotMem (heq ▸ hv)
      rw [← decide_not, decide_eq_decide]
      omega
    rw [hnot]
    exact List.filter_append_perm _ ks
  constructor
  · refine (eq_desc ?_ ?_).symm
    · rw [List.pairwise_append, List.pairwise_append]
      refine ⟨hfalling.filter _, ⟨by simp [List.pairwise_replicate], hfalling.filter _, ?_⟩, ?_⟩
      · intro v hv w hw
        rw [List.eq_of_mem_replicate hv]
        exact (hlow w hw).le
      · intro v hv w hw
        rcases List.mem_append.1 hw with hx | hw
        · rw [List.eq_of_mem_replicate hx]
          exact (hhigh v hv).le
        · exact ((hlow w hw).trans (hhigh v hv)).le
    · refine List.Perm.trans ?_ hperm.symm
      exact List.perm_append_comm_assoc .. |>.trans (hsplit.append_left _)
  · refine hsplit.eq_of_pairwise' ?_ hfalling
    rw [List.pairwise_append]
    exact ⟨hfalling.filter _, hfalling.filter _,
      fun v hv w hw => ((hlow w hw).trans (hhigh v hv)).le⟩

theorem splitPairs_kickers {vs : List Int} {n k : Nat}
    (hshape : shape vs = (n + 2) :: List.replicate k 1) :
    ∃ x ks, groups vs = x :: ks ∧ ks.length = k ∧
      splitPairs (desc vs) [] [] = (List.replicate (n + 2) x, ks) := by
  obtain ⟨x, ks, hgroups, hlength, hnotMem, hsorted, hperm⟩ := groups_kickers hshape
  obtain ⟨hdesc, hks⟩ := desc_kickers hnotMem hsorted hperm
  refine ⟨x, ks, hgroups, hlength, ?_⟩
  have hnodup : ks.Nodup := hsorted.nodup
  rw [hdesc, splitPairs_singles_append (hnodup.filter _), splitPairs_run,
    splitPairs_singles (hnodup.filter _), List.nil_append, List.nil_append, hks]
  · intro v hv hx
    rw [List.nil_append] at hx
    rw [List.eq_of_mem_replicate hx] at hv
    exact hnotMem (List.mem_of_mem_filter hv)
  · intro v hv hmem
    have hlt : x < v := by simpa using List.of_mem_filter hv
    rcases List.mem_append.1 hmem with hx | hlow
    · exact hlt.ne' (List.eq_of_mem_replicate hx)
    · have hgt : v < x := by simpa using List.of_mem_filter hlow
      omega

theorem splitPairs_liangdui {vs : List Int} (hshape : shape vs = [2, 2, 1]) :
    ∃ x y z, groups vs = [x, y, z] ∧ splitPairs (desc vs) [] [] = ([x, x, y, y], [z]) := by
  obtain ⟨x, y, z, hgroups, hlt, hx, hy, hperm⟩ := groups_liangdui hshape
  have hdesc : ∀ l : List Int, l.Pairwise (· ≥ ·) → (∀ v, l.count v = [x, x, y, y, z].count v) →
      desc vs = l := fun l hl hcount =>
    (eq_desc hl ((List.perm_iff_count.2 hcount).trans hperm.symm)).symm
  refine ⟨x, y, z, hgroups, ?_⟩
  -- the single card stands above, between or below the pairs
  rcases hx.lt_or_gt with habove | hbelow
  · rw [hdesc [z, x, x, y, y] (by simp [hlt.le, habove.le, (hlt.trans habove).le])
      fun v => by simp only [List.count_cons]; omega]
    simp [splitPairs, hx]
  · rcases hy.lt_or_gt with hbetween | hlow
    · rw [hdesc [x, x, z, y, y] (by simp [hlt.le, hbelow.le, hbetween.le])
        fun v => by simp only [List.count_cons]; omega]
      simp [splitPairs, hx, hy]
    · rw [hdesc [x, x, y, y, z] (by simp [hlt.le, hbelow.le, hlow.le]) fun v => rfl]
      simp [splitPairs, hy]

theorem nth_replicate (n : Nat) (x : Int) : Lua.nth (List.replicate (n + 2) x) 1 = some x := rfl

theorem lessThan_some (x y : Int) : lessThan (some x) (some y) = .ok (decide (x < y)) := rfl

theorem isMessireFive_pairs (ht : t = 2 ∨ t = 3 ∨ t = 4) (ha : RowOfFive t a) (hb : RowOfFive t b) :
    isMessireFive t a b =
      .ok (some (verdict (groups (values a)) (groups (values b)) == some false)) := by
  have hread : ∀ {row : List Card}, RowOfFive t row →
      [1, 2, 3, 4, 5].mapM (valueAt (Lua.tableSort (fun x y => decide (x.value > y.value)) row)) =
        .ok (desc (values row)) := by
    intro row hrow
    rw [mapM_valueAt_five ((Lua.length_tableSort _ _).trans hrow.length), map_value_tableSort]
  have hfive : ∀ {row : List Card} {n k : Nat}, row.length = 5 →
      shape (values row) = n :: List.replicate k 1 → n + k = 5 := by
    intro row n k hrow hshape
    rw [← length_of_shape hshape, values, List.length_map, hrow]
  rcases ht with rfl | rfl | rfl
  · have hshape : ∀ {row : List Card}, RowOfFive 2 row → shape (values row) = [2, 1, 1, 1] := by
      intro row hrow
      refine hrow.isRow.resolve_right fun htop => ?_
      exact absurd (@hfive row 2 1 hrow.length htop) (by decide)
    obtain ⟨x, ks, hgroups, hlength, hsplit⟩ := @splitPairs_kickers _ 0 3 (hshape ha)
    obtain ⟨x', ls, hgroups', hlength', hsplit'⟩ := @splitPairs_kickers _ 0 3 (hshape hb)
    obtain ⟨y1, y2, y3, rfl⟩ := List.length_eq_three.1 hlength
    obtain ⟨z1, z2, z3, rfl⟩ := List.length_eq_three.1 hlength'
    have hnth : ∀ y1 y2 y3 : Int, Lua.nth [y1, y2, y3] 1 = some y1 ∧
        Lua.nth [y1, y2, y3] 2 = some y2 ∧ Lua.nth [y1, y2, y3] 3 = some y3 :=
      fun _ _ _ => ⟨rfl, rfl, rfl⟩
    rw [hgroups, hgroups', verdict_cons_beq_false, verdict_cons_beq_false, verdict_cons_beq_false,
      verdict_singleton, verdict_beq_false]
    simp only [isMessireFive, take_five ha, take_five hb, Int.reduceEq, Int.reduceLT,
      gt_iff_lt, or_self,
      and_self, if_false, if_true, hread ha, hread hb, Lua.ok_bind, Lua.pure_eq_ok, hsplit, hsplit',
      nth_replicate, hnth, lessThan_some, List.length_replicate, Nat.succ_pos, Option.some.injEq]
    split_ifs <;> rfl
  · obtain ⟨x, y, z, hgroups, hsplit⟩ := splitPairs_liangdui ha.isRow
    obtain ⟨x', y', z', hgroups', hsplit'⟩ := splitPairs_liangdui hb.isRow
    have hnth : ∀ x y : Int, Lua.nth [x, x, y, y] 1 = some x ∧ Lua.nth [x, x, y, y] 3 = some y :=
      fun _ _ => ⟨rfl, rfl⟩
    have hsingle : ∀ z : Int, Lua.nth [z] 1 = some z := fun _ => rfl
    rw [hgroups, hgroups', verdict_cons_beq_false, verdict_cons_beq_false, verdict_singleton,
      verdict_beq_false]
    simp only [isMessireFive, take_five ha, take_five hb, Int.reduceEq, Int.reduceLT,
      gt_iff_lt, or_self,
      and_self, if_false, if_true, hread ha, hread hb, Lua.ok_bind, Lua.pure_eq_ok, hsplit, hsplit',
      hnth, hsingle, lessThan_some, List.length_cons, Nat.succ_pos, Option.some.injEq]
    split_ifs <;> rfl
  · have hshape : ∀ {row : List Card}, RowOfFive 4 row → shape (values row) = [3, 1, 1] := by
      intro row hrow
      refine hrow.isRow.resolve_right fun htop => ?_
      exact absurd (@hfive row 3 0 hrow.length htop) (by decide)
    obtain ⟨x, ks, hgroups, hlength, hsplit⟩ := @splitPairs_kickers _ 1 2 (hshape ha)
    obtain ⟨x', ls, hgroups', hlength', hsplit'⟩ := @splitPairs_kickers _ 1 2 (hshape hb)
    obtain ⟨y1, y2, rfl⟩ := List.length_eq_two.1 hlength
    obtain ⟨z1, z2, rfl⟩ := List.length_eq_two.1 hlength'
    have hnth : ∀ y1 y2 : Int, Lua.nth [y1, y2] 1 = some y1 ∧ Lua.nth [y1, y2] 2 = some y2 :=
      fun _ _ => ⟨rfl, rfl⟩
    rw [hgroups, hgroups', verdict_cons_beq_false, verdict_cons_beq_false, verdict_singleton,
      verdict_beq_false]
    simp only [isMessireFive, take_five ha, take_five hb, Int.reduceEq, Int.reduceLT,
      gt_iff_lt, or_self,
      and_self, if_false, if_true, hread ha, hread hb, Lua.ok_bind, Lua.pure_eq_ok, hsplit, hsplit',
      nth_replicate, hnth, lessThan_some, List.length_replicate, Nat.succ_pos, Option.some.injEq]
    split_ifs <;> rfl

end Types

section Agreement

theorem verdict_desc_eq_none_iff {vs ws : List Int} :
    verdict (desc vs) (desc ws) = none ↔ vs.Perm ws := by
  rw [verdict_eq_none_iff]
  constructor
  · intro heq
    exact (desc_perm vs).symm.trans (heq ▸ desc_perm ws)
  · exact desc_eq_of_perm

/-- The types whose rows are compared card by card. -/
theorem verdict_rowKey_eq (ht : t = 1 ∨ t = 5 ∨ t = 6 ∨ t = 9) (ha : RowOfFive t a)
    (hb : RowOfFive t b) :
    verdict (rowKey t (values a)) (rowKey t (values b)) = verdict (desc (values a))
    (desc (values b)) := by
  rcases ht with rfl | rfl | rfl | rfl
  · rfl
  · exact (verdict_straights _ ha.isRow _ hb.isRow).symm
  · rfl
  · exact (verdict_straights _ ha.isRow.2 _ hb.isRow.2).symm

/-- The types of which the test answers exactly when the second row wins. -/
theorem isMessireFive_groups (ht : t = 2 ∨ t = 3 ∨ t = 4 ∨ t = 7 ∨ t = 8 ∨ t = 10)
    (ha : RowOfFive t a)
    (hb : RowOfFive t b) :
    isMessireFive t a b =
      .ok (some (verdict (rowKey t (values a)) (rowKey t (values b)) == some false)) := by
  rcases ht with rfl | rfl | rfl | rfl | rfl | rfl
  · exact isMessireFive_pairs (by decide) ha hb
  · exact isMessireFive_pairs (by decide) ha hb
  · exact isMessireFive_pairs (by decide) ha hb
  · exact isMessireFive_hulu ha hb
  · exact @isMessireFive_middle 8 a b (by decide) ha hb 4 1 (by decide) ha.isRow hb.isRow
  · have hsingle : ∀ {row : List Card}, RowOfFive 10 row →
        rowKey 10 (values row) = (groups (values row)).take 1 := by
      intro row hrow
      obtain ⟨x, ks, hgroups, hlength, -⟩ := @groups_kickers _ 5 0 hrow.isRow
      rw [List.length_eq_zero_iff] at hlength
      show groups (values row) = _
      rw [hgroups, hlength]
      rfl
    rw [hsingle ha, hsingle hb]
    exact @isMessireFive_middle 10 a b (by decide) ha hb 5 0 (by decide) ha.isRow hb.isRow

/-- A row that the test lets stand is not beaten. -/
theorem not_beaten (ht : 1 ≤ t ∧ t ≤ 10) (ha : RowOfFive t a) (hb : RowOfFive t b)
    (hfalse : isMessireFive t a b = .ok (some false)) :
    ∀ fn, compare t = some fn → ¬Beaten fn a b := by
  intro fn hfn hbeaten
  rw [beaten_iff ht hfn ha hb] at hbeaten
  by_cases hcards : t = 1 ∨ t = 5 ∨ t = 6 ∨ t = 9
  · rw [verdict_rowKey_eq hcards ha hb] at hbeaten
    by_cases hsix : t = 6
    · subst hsix
      rw [isMessireFive_tonghua ha hb, hbeaten] at hfalse
      exact absurd hfalse (by simp)
    · rw [isMessireFive_cards (by omega) ha.length hb.length, hbeaten] at hfalse
      exact absurd hfalse (by simp)
  · rw [isMessireFive_groups (by omega) ha hb, hbeaten] at hfalse
    exact absurd hfalse (by simp)

/-- The test answers on every two rows of one type. -/
theorem isMessireFive_ok (ht : 1 ≤ t ∧ t ≤ 10) (ha : RowOfFive t a) (hb : RowOfFive t b) :
    ∃ answer, isMessireFive t a b = .ok answer := by
  by_cases hcards : t = 1 ∨ t = 5 ∨ t = 9
  · exact ⟨_, isMessireFive_cards (by omega) ha.length hb.length⟩
  · by_cases hsix : t = 6
    · subst hsix
      exact ⟨_, isMessireFive_tonghua ha hb⟩
    · exact ⟨_, isMessireFive_groups (by omega) ha hb⟩

/-- **The foul test agrees with the comparison but for ties** of the types compared card by card. -/
theorem isMessireFive_agrees_iff (ht : 1 ≤ t ∧ t ≤ 10) (ha : RowOfFive t a) (hb : RowOfFive t b) :
    Agrees t a b ↔ (t = 1 ∨ t = 5 ∨ t = 6 ∨ t = 9 → ¬(values a).Perm (values b)) := by
  obtain ⟨fn, hfn, -⟩ := @compare_key 1 t ht (Or.inl rfl)
  have hagrees : Agrees t a b ↔
      (isMessireFive t a b = .ok (some true) ↔
          verdict (rowKey t (values a)) (rowKey t (values b)) = some false) ∧
        (isMessireFive t a b = .ok (some false) ↔
          ¬verdict (rowKey t (values a)) (rowKey t (values b)) = some false) := by
    rw [← beaten_iff ht hfn ha hb]
    constructor
    · exact fun h => h fn hfn
    · intro h fn' hfn'
      rw [← Option.some.inj (hfn.symm.trans hfn')]
      exact h
  rw [hagrees]
  by_cases hcards : t = 1 ∨ t = 5 ∨ t = 6 ∨ t = 9
  · rw [verdict_rowKey_eq hcards ha hb]
    simp only [hcards, true_imp_iff]
    rw [← verdict_desc_eq_none_iff]
    by_cases hsix : t = 6
    · subst hsix
      rw [isMessireFive_tonghua ha hb]
      rcases verdict (desc (values a)) (desc (values b)) with _ | _ | _ <;> simp
    · rw [isMessireFive_cards (by omega) ha.length hb.length]
      rcases verdict (desc (values a)) (desc (values b)) with _ | _ | _ <;> simp
  · rw [isMessireFive_groups (by omega) ha hb]
    simp only [hcards, false_imp_iff, iff_true]
    rcases verdict (rowKey t (values a)) (rowKey t (values b)) with _ | _ | _ <;> simp

def suited (type : Int) (vs : List Int) : List Card := vs.map fun value => { type, value }

theorem isMessireFive_agrees_twoTriples :
    Agrees 4 (suited 1 [6, 2, 6, 6, 9]) (suited 2 [2, 6, 9, 6, 6]) :=
  (isMessireFive_agrees_iff (by decide) ⟨rfl, by decide +kernel⟩ ⟨rfl, by decide +kernel⟩).2
    fun h => absurd h (by decide)

/-- Of two flushes of the same values the second one is said to win. -/
theorem isMessireFive_not_agrees :
    isMessireFive 6 (suited 4 [1, 3, 5, 7, 9]) (suited 3 [1, 3, 5, 7, 9]) = .ok (some true) ∧
      compareTonghua 1 (suited 4 [1, 3, 5, 7, 9]) (suited 3 [1, 3, 5, 7, 9]) = .ok none ∧
      ¬∀ (t : Int) (a b : List Card), 1 ≤ t ∧ t ≤ 10 → RowOfFive t a → RowOfFive t b →
      Agrees t a b := by
  have htrue : isMessireFive 6 (suited 4 [1, 3, 5, 7, 9]) (suited 3 [1, 3, 5, 7, 9]) =
      .ok (some true) := by
    decide +kernel
  refine ⟨htrue, by decide +kernel, fun hall => ?_⟩
  have hagrees := hall 6 (suited 4 [1, 3, 5, 7, 9]) (suited 3 [1, 3, 5, 7, 9]) (by decide)
    ⟨rfl, by decide +kernel⟩ ⟨rfl, by decide +kernel⟩
  have hbeaten : compareTonghua 1 (Lua.tableSort sortDescent (suited 4 [1, 3, 5, 7, 9]))
      (Lua.tableSort sortDescent (suited 3 [1, 3, 5, 7, 9])) = .ok (some false) :=
    (hagrees compareTonghua rfl).1.1 htrue
  exact absurd hbeaten (by decide +kernel)

end Agreement

end SdyServer.Daboluo
