import SdyServer.Hongbao.Result

/-!
# Which packets have a point

The points of a packet are read off its last digit before the point and the two after it. A packet
whose amount in cents ends in three zeros has none: the cow of three zeros is no cow, and the
special points stop at 9.00. Everything that reads the first point of such a packet raises.
-/

namespace SdyServer.Hongbao

section Text

/-- `string.format("%0.2f", cents/100)`. -/
def format2 (cents : ℤ) : Value :=
  (if cents < 0 then ['-'] else []) ++ Nat.toDigits 10 (cents.natAbs / 100) ++
    ['.', (cents.natAbs / 10 % 10).digitChar, (cents.natAbs % 10).digitChar]

/-- The last digit before the point closes the digits before it. -/
theorem format2_eq (n : ℕ) : ∃ front, (∀ c ∈ front, c.isDigit = true) ∧
    format2 n = front ++ [(n / 100 % 10).digitChar, '.', (n / 10 % 10).digitChar,
      (n % 10).digitChar] := by
  have hsign : ¬(n : ℤ) < 0 := by omega
  have hcents : (n : ℤ).natAbs = n := Int.natAbs_natCast n
  rw [format2, if_neg hsign, hcents, Nat.toDigits_eq_if (by norm_num)]
  split_ifs with hlt
  · refine ⟨[], by simp, ?_⟩
    rw [Nat.mod_eq_of_lt hlt]
    rfl
  · refine ⟨Nat.toDigits 10 (n / 100 / 10), fun c hc => ?_, ?_⟩
    · exact Nat.isDigit_of_mem_toDigits (by norm_num) (by norm_num) hc
    · simp

theorem tail4_append (front : Value) (a b c d : Char) :
    tail4 (front ++ [a, b, c, d]) = [a, b, c, d] := by
  unfold tail4
  split_ifs with hlong
  · simp
  · have hfront : front = [] := by simpa using hlong
    rw [hfront, List.nil_append]

theorem isPunct_of_isDigit {c : Char} (hc : c.isDigit = true) : isPunct c = false := by
  have hrange : 48 ≤ c.toNat ∧ c.toNat ≤ 57 := by
    simpa [Char.isDigit, UInt32.le_iff_toNat_le] using hc
  simp only [isPunct, Bool.or_eq_false_iff, Bool.and_eq_false_iff, decide_eq_false_iff_not]
  omega

theorem isDigit_digitChar {n : ℕ} (hn : n < 10) : n.digitChar.isDigit = true := by
  simpa using hn

theorem digit_digitChar {n : ℕ} (hn : n < 10) : digit n.digitChar = some n := by
  unfold digit
  rw [Nat.toNat_digitChar_of_lt_ten hn, if_pos (by omega)]
  simp

theorem mapM_digit {l : Value} (hl : ∀ c ∈ l, c.isDigit = true) :
    l.mapM digit = some (l.map fun c => c.toNat - 48) := by
  induction l with
  | nil => rfl
  | cons c l ih =>
      rw [List.forall_mem_cons] at hl
      have hrange : 48 ≤ c.toNat ∧ c.toNat ≤ 57 := by
        simpa [Char.isDigit, UInt32.le_iff_toNat_le] using hl.1
      have hdigit : digit c = some (c.toNat - 48) := by rw [digit, if_pos hrange]
      rw [List.mapM_cons, hdigit, ih hl.2]
      rfl

theorem foldl_digits (l : Value) (init : ℕ) :
    ((l.map fun c => c.toNat - 48).map fun (d : ℕ) => (d : ℚ)).foldl (fun n d => 10 * n + d)
      ((init : ℕ) : ℚ) = ((Nat.ofDigitChars 10 l init : ℕ) : ℚ) := by
  induction l generalizing init with
  | nil => simp
  | cons c l ih =>
      rw [Nat.ofDigitChars_cons, ← ih, List.map_cons, List.map_cons, List.foldl_cons]
      push_cast
      rfl

theorem tonumber_unsigned (whole fraction : Value) (hne : whole ≠ [])
    (hwhole : ∀ c ∈ whole, c.isDigit = true) (hfraction : ∀ c ∈ fraction, c.isDigit = true) :
    tonumber (whole ++ '.' :: fraction) =
      some (((Nat.ofDigitChars 10 (whole ++ fraction) 0 : ℕ) : ℚ) / 10 ^ fraction.length) ∧
    tonumber ('-' :: (whole ++ '.' :: fraction)) =
      some (-(((Nat.ofDigitChars 10 (whole ++ fraction) 0 : ℕ) : ℚ) / 10 ^ fraction.length)) := by
  have hpoint : ∀ c ∈ whole, c ≠ '.' := by
    rintro c hc rfl
    exact absurd (hwhole _ hc) (by decide)
  have hhead : (whole ++ '.' :: fraction).head? ≠ some '-' := by
    obtain ⟨c, rest, rfl⟩ := List.exists_cons_of_ne_nil hne
    rw [List.cons_append, List.head?_cons]
    rintro ⟨rfl⟩
    exact absurd (hwhole _ (List.mem_cons_self ..)) (by decide)
  have htake : (whole ++ '.' :: fraction).takeWhile (· ≠ '.') = whole := by
    rw [List.takeWhile_append_of_pos (by simpa using hpoint)]
    simp
  have hdrop : ((whole ++ '.' :: fraction).dropWhile (· ≠ '.')).drop 1 = fraction := by
    rw [List.dropWhile_append_of_pos (by simpa using hpoint)]
    simp
  have hread : (whole ++ fraction).mapM digit = _ := mapM_digit fun c hc =>
    (List.mem_append.mp hc).elim (hwhole c) (hfraction c)
  have hvalue := foldl_digits (whole ++ fraction) 0
  rw [Nat.cast_zero] at hvalue
  constructor
  · unfold tonumber
    simp only [hhead, if_false, htake, hdrop, hread]
    rw [← hvalue, List.map_eq_flatMap (l := List.map ..)]
    rfl
  · unfold tonumber
    simp only [List.head?_cons, if_true, List.drop_succ_cons, List.drop_zero, htake, hdrop, hread]
    rw [← hvalue, List.map_eq_flatMap (l := List.map ..)]
    rfl

/-- Reading a printed amount gives it back. -/
theorem tonumber_format2 (cents : ℤ) : tonumber (format2 cents) = some ((cents : ℚ) / 100) := by
  have ha : cents.natAbs / 10 % 10 < 10 := Nat.mod_lt _ (by norm_num)
  have hb : cents.natAbs % 10 < 10 := Nat.mod_lt _ (by norm_num)
  obtain ⟨hplus, hminus⟩ := tonumber_unsigned (Nat.toDigits 10 (cents.natAbs / 100))
    [(cents.natAbs / 10 % 10).digitChar, (cents.natAbs % 10).digitChar]
    Nat.toDigits_ne_nil
    (fun c hc => Nat.isDigit_of_mem_toDigits (by norm_num) (by norm_num) hc)
    (by simp [isDigit_digitChar ha, isDigit_digitChar hb])
  have habs : 10 * (10 * (cents.natAbs / 100) + cents.natAbs / 10 % 10) + cents.natAbs % 10 =
      cents.natAbs := by omega
  rw [Nat.ofDigitChars_append, Nat.ofDigitChars_ten_toDigits,
    Nat.ofDigitChars_cons_digitChar_of_lt_ten ha, Nat.ofDigitChars_cons_digitChar_of_lt_ten hb,
    Nat.ofDigitChars_nil, habs] at hplus hminus
  unfold format2
  split_ifs with hneg
  · have hcast : ((cents.natAbs : ℕ) : ℚ) = -cents := by
      rw [Nat.cast_natAbs, abs_of_neg hneg]
      push_cast
      rfl
    rw [List.append_assoc, List.singleton_append, hminus, hcast, List.length_cons,
      List.length_singleton, neg_div, neg_neg]
    norm_num
  · have hcast : ((cents.natAbs : ℕ) : ℚ) = cents := by
      rw [Nat.cast_natAbs, abs_of_nonneg (not_lt.mp hneg)]
    rw [List.nil_append, hplus, hcast, List.length_cons, List.length_singleton]
    norm_num

theorem format2_injective : Function.Injective format2 := by
  intro cents cents' h
  have hread := congrArg tonumber h
  rw [tonumber_format2, tonumber_format2, Option.some.injEq, div_left_inj' (by norm_num)] at hread
  exact_mod_cast hread

end Text

section Points

/-- The cow of three digits. -/
def cowOf (a b c : ℕ) : List ℕ :=
  if a + b + c = 0 then [] else [if (a + b + c) % 10 = 0 then 10 else (a + b + c) % 10]

/-- The points that a packet with these three last digits has, in the order of the source's
tests. -/
def pointTypes (a b c : ℕ) : List ℕ :=
  ([baozi, manniu, daoshun, zhengshun, duizi, jinniu].filterMap fun f =>
    (f [a.digitChar, '.', b.digitChar, c.digitChar]).map Prod.snd) ++ cowOf a b c

theorem niuniu_format2 (n : ℕ) : ∃ cow, niuniu (format2 n) = .ok cow ∧
    cow.toList.map Prod.snd = cowOf (n / 100 % 10) (n / 10 % 10) (n % 10) := by
  obtain ⟨front, hfront, hvalue⟩ := format2_eq n
  have ha : n / 100 % 10 < 10 := Nat.mod_lt _ (by norm_num)
  have hb : n / 10 % 10 < 10 := Nat.mod_lt _ (by norm_num)
  have hc : n % 10 < 10 := Nat.mod_lt _ (by norm_num)
  have hfilter : (format2 n).filter (fun c => !isPunct c) =
      front ++ [(n / 100 % 10).digitChar, (n / 10 % 10).digitChar, (n % 10).digitChar] := by
    have hkeep : front.filter (fun c => !isPunct c) = front := by
      rw [List.filter_eq_self]
      intro c hc
      simp [isPunct_of_isDigit (hfront c hc)]
    have hdot : isPunct '.' = true := rfl
    rw [hvalue, List.filter_append, hkeep]
    simp [isPunct_of_isDigit (isDigit_digitChar ha), isPunct_of_isDigit (isDigit_digitChar hb),
      isPunct_of_isDigit (isDigit_digitChar hc), hdot]
  have hdrop : (if (front ++ [(n / 100 % 10).digitChar, (n / 10 % 10).digitChar,
        (n % 10).digitChar]).length > 3 then
      (front ++ [(n / 100 % 10).digitChar, (n / 10 % 10).digitChar, (n % 10).digitChar]).drop
        ((front ++ [(n / 100 % 10).digitChar, (n / 10 % 10).digitChar,
          (n % 10).digitChar]).length - 3)
      else front ++ [(n / 100 % 10).digitChar, (n / 10 % 10).digitChar, (n % 10).digitChar]) =
      [(n / 100 % 10).digitChar, (n / 10 % 10).digitChar, (n % 10).digitChar] := by
    split_ifs with hlong
    · simp
    · have hnil : front = [] := by simpa using hlong
      rw [hnil, List.nil_append]
  unfold niuniu
  rw [hfilter]
  simp only [hdrop, List.foldlM_cons, List.foldlM_nil, digit_digitChar ha, digit_digitChar hb,
    digit_digitChar hc, Lua.need_some, Lua.ok_bind, Lua.pure_eq_ok, Nat.zero_add]
  unfold cowOf
  split_ifs with hzero hten
  · exact ⟨none, rfl, rfl⟩
  · exact ⟨_, rfl, rfl⟩
  · exact ⟨_, rfl, rfl⟩

theorem specialPoint_append (cfg : List String) (tag : ℕ) (front : Value) (a b c d : Char) :
    specialPoint cfg tag (front ++ [a, b, c, d]) = specialPoint cfg tag [a, b, c, d] := by
  have htail : tail4 [a, b, c, d] = [a, b, c, d] := tail4_append [] a b c d
  rw [specialPoint, specialPoint, tail4_append, htail]

theorem getCowData_format2 (n : ℕ) : ∃ data, getCowData (format2 n) = .ok data ∧
    data.map Point.pointType = pointTypes (n / 100 % 10) (n / 10 % 10) (n % 10) := by
  obtain ⟨cow, hcow, htags⟩ := niuniu_format2 n
  obtain ⟨front, -, hvalue⟩ := format2_eq n
  have hspecial : ([baozi, manniu, daoshun, zhengshun, duizi, jinniu].filterMap fun f =>
      f (format2 n)) = [baozi, manniu, daoshun, zhengshun, duizi, jinniu].filterMap fun f =>
        f [(n / 100 % 10).digitChar, '.', (n / 10 % 10).digitChar, (n % 10).digitChar] := by
    apply List.filterMap_congr
    intro f hf
    simp only [List.mem_cons, List.not_mem_nil, or_false] at hf
    rw [hvalue]
    obtain rfl | rfl | rfl | rfl | rfl | rfl := hf <;> exact specialPoint_append ..
  refine ⟨_, by rw [getCowData, hcow]; rfl, ?_⟩
  rw [hspecial, List.map_map, pointTypes, ← htags, ← List.map_filterMap, List.map_append]
  rfl

/-- The points of the tests that are passed, in the order of the tests. -/
theorem specialPoints_sublist (tests : List (List String × ℕ)) (value : Value) :
    (tests.filterMap fun test => (specialPoint test.1 test.2 value).map Prod.snd).Sublist
    (tests.map Prod.snd) := by
  induction tests with
  | nil => exact List.Sublist.refl _
  | cons test tests ih =>
      rw [List.filterMap_cons, List.map_cons]
      unfold specialPoint at ih ⊢
      split_ifs
      · exact ih.cons_cons _
      · exact ih.cons _

theorem mem_cowOf {a b c tag : ℕ} (htag : tag ∈ cowOf a b c) : 1 ≤ tag ∧ tag ≤ 10 := by
  unfold cowOf at htag
  split_ifs at htag with hzero hten
  · exact absurd htag List.not_mem_nil
  · rw [List.mem_singleton.1 htag]
    decide
  · rw [List.mem_singleton.1 htag]
    omega

/-- The special points come before the cow, each of them the higher one. -/
theorem pointTypes_append (a b c : ℕ) :
    ∃ special : List ℕ, special.Sublist [16, 15, 14, 13, 12, 11] ∧
    pointTypes a b c = special ++ cowOf a b c :=
  ⟨_, specialPoints_sublist [(getBaoziCfg, 16), (getManniuCfg, 15), (getDaoshunCfg, 14),
    (getZhengshunCfg, 13),
    (getDuiziCfg, 12), (getJinniuCfg, 11)] [a.digitChar, '.', b.digitChar, c.digitChar], rfl⟩

theorem mem_pointTypes {a b c tag : ℕ} (htag : tag ∈ pointTypes a b c) : classes tag ≠ [] := by
  have hclasses : ∀ tag ∈ List.range' 1 16, classes tag ≠ [] := by decide
  obtain ⟨special, hspecial, heq⟩ := pointTypes_append a b c
  apply hclasses
  rw [heq, List.mem_append] at htag
  rcases htag with htag | htag
  · have hmem : ∀ tag ∈ [16, 15, 14, 13, 12, 11], tag ∈ List.range' 1 16 := by decide
    exact hmem tag (hspecial.subset htag)
  · have hbounds := mem_cowOf htag
    rw [List.mem_range'_1]
    omega

theorem pairwise_pointTypes (a b c : ℕ) : (pointTypes a b c).Pairwise (· ≥ ·) := by
  obtain ⟨special, hspecial, heq⟩ := pointTypes_append a b c
  have hfalls : ([16, 15, 14, 13, 12, 11] : List ℕ).Pairwise (· ≥ ·) := by decide
  rw [heq, List.pairwise_append]
  refine ⟨hfalls.sublist hspecial, ?_, fun x hx y hy => ?_⟩
  · unfold cowOf
    split_ifs
    · exact List.Pairwise.nil
    · exact List.pairwise_singleton ..
    · exact List.pairwise_singleton ..
  · have hlow : ∀ tag ∈ [16, 15, 14, 13, 12, 11], 11 ≤ tag := by decide
    have hx' := hlow x (hspecial.subset hx)
    have hy' := (mem_cowOf hy).2
    omega

/-- Of three last digits that are not all zero the highest point comes first. -/
theorem pointTypes_sorted {a b c : ℕ} (hsum : a + b + c ≠ 0) :
    pointTypes a b c ≠ [] ∧ ∀ tag ∈ pointTypes a b c, tag ≤ (pointTypes a b c).headD 0 := by
  have hne : pointTypes a b c ≠ [] := by
    intro hnil
    have hcow := (List.append_eq_nil_iff.1 hnil).2
    rw [cowOf, if_neg hsum] at hcow
    exact List.cons_ne_nil _ _ hcow
  refine ⟨hne, fun tag htag => ?_⟩
  have hpair := pairwise_pointTypes a b c
  obtain ⟨first, rest, heq⟩ := List.exists_cons_of_ne_nil hne
  rw [heq] at hpair htag ⊢
  rcases List.mem_cons.1 htag with rfl | hmem
  · exact le_refl tag
  · exact (List.pairwise_cons.1 hpair).1 tag hmem

end Points

section Statement

/-- Everything that a settlement reads of a packet is there, and the point read first is the
highest. -/
structure Settles (value : Value) (userDxds : List ℕ) (userCow : List Point) : Prop where
  cowData : getCowData value = .ok userCow
  dxdsData : getSizeDanShuangData value = .ok (userDxds, some userCow)
  first : ∃ first, Lua.elem userCow 1 = .ok first ∧
    ∀ point ∈ userCow, point.pointType ≤ first.pointType
  firstDxds : ∃ tag, Lua.elem userDxds 1 = .ok tag

def HasPoint (value : Value) : Prop := ∃ userDxds userCow, Settles value userDxds userCow

theorem elem_one {α : Type} {l : List α} (hl : l ≠ []) : Lua.elem l 1 = .ok (l.head hl) := by
  cases l with
  | nil => exact absurd rfl hl
  | cons a rest => rfl

theorem hasPoint_of_digits {n : ℕ} (hn : n % 1000 ≠ 0) : HasPoint (format2 n) := by
  obtain ⟨data, hdata, htags⟩ := getCowData_format2 n
  have hsum : n / 100 % 10 + n / 10 % 10 + n % 10 ≠ 0 := by
    intro hsum
    rw [Nat.add_eq_zero_iff, Nat.add_eq_zero_iff] at hsum
    omega
  obtain ⟨hnonempty, hall⟩ := pointTypes_sorted hsum
  have hclasses := fun tag => @mem_pointTypes (n / 100 % 10) (n / 10 % 10) (n % 10) tag
  rw [← htags] at hnonempty hall hclasses
  have hne : data ≠ [] := fun hnil => hnonempty (by rw [hnil]; rfl)
  have hclass : (data.flatMap fun point => classes point.pointType) ≠ [] := by
    intro hnil
    rw [List.flatMap_eq_nil_iff] at hnil
    have hhead := List.head_mem hne
    exact hclasses _ (List.mem_map_of_mem hhead) (hnil _ hhead)
  refine ⟨_, data, hdata, ?_, ⟨_, elem_one hne, fun point hpoint => ?_⟩, _, elem_one hclass⟩
  · rw [getSizeDanShuangData, hdata]
    exact if_neg hne
  · have hle := hall _ (List.mem_map_of_mem hpoint)
    rwa [List.headD_eq_head?_getD, List.head?_map, List.head?_eq_some_head hne] at hle

/-- **A packet has a point exactly when its amount in cents does not end in three zeros.** -/
theorem hasPoint_iff (n : ℕ) : HasPoint (format2 n) ↔ n % 1000 ≠ 0 := by
  refine ⟨?_, hasPoint_of_digits⟩
  rintro ⟨userDxds, userCow, hsettles⟩ hzero
  obtain ⟨data, hdata, htags⟩ := getCowData_format2 n
  have ha : n / 100 % 10 = 0 := by omega
  have hb : n / 10 % 10 = 0 := by omega
  have hc : n % 10 = 0 := by omega
  have hnone : pointTypes 0 0 0 = [] := by decide +kernel
  rw [ha, hb, hc, hnone, List.map_eq_nil_iff] at htags
  have hdxds := hsettles.dxdsData
  rw [getSizeDanShuangData, hdata, htags] at hdxds
  cases hdxds

/-- A banker with ten yuan in his packet: the round cannot be settled. -/
theorem not_hasPoint_ten : format2 1000 = "10.00".toList ∧ ¬HasPoint "10.00".toList ∧
    getResult (some 1) (some (((∅ : LuaTable Uid Packet).set 1 ⟨some "10.00".toList, false⟩).set 2
        ⟨some "2.00".toList, false⟩))
      (some ((∅ : LuaTable Uid (List TotalBet)).set 2 [⟨⟨2, none, 10⟩, 10⟩])) (some [1, 2]) =
      .error .indexNil ∧
    ¬∀ n : ℕ, 0 < n → HasPoint (format2 n) := by
  have htext : format2 1000 = "10.00".toList := by decide +kernel
  refine ⟨htext, ?_, by decide +kernel, fun hall => ?_⟩
  · rintro ⟨userDxds, userCow, hsettles⟩
    have hdata : getSizeDanShuangData "10.00".toList = .ok ([], none) := by decide +kernel
    have hdxds := hsettles.dxdsData
    rw [hdata] at hdxds
    cases hdxds
  · obtain ⟨userDxds, userCow, hsettles⟩ := hall 1000 (by norm_num)
    have hdata : getSizeDanShuangData (format2 1000) = .ok ([], none) := by decide +kernel
    have hdxds := hsettles.dxdsData
    rw [show ((1000 : ℕ) : ℤ) = 1000 from rfl, hdata] at hdxds
    cases hdxds

end Statement

end SdyServer.Hongbao
