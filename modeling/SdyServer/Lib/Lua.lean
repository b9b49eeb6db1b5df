import Mathlib.Data.List.Perm.Subperm
import Mathlib.Data.List.Sort
import Mathlib.Algebra.Order.Ring.Int
import Mathlib.Algebra.BigOperators.Group.List.Basic

/-!
# Fallible evaluation and lists read by position

Running a dynamic-language function either returns a value or raises. The errors are those the
language itself raises, plus failed assertions. Arrays are lists read from position one, and reading
past the end gives nil, so a field access on the result raises.
-/

/-- What the interpreter raises. -/
inductive LuaError where
  | indexNil
  | arithmeticOnNil
  | compareNil
  | compareText
  | concatNil
  | callNil
  | callNumber
  | badArgument
  | emptyInterval
  | assertion (message : String)
deriving DecidableEq, Repr

/-- A computation that returns a value or raises. -/
abbrev Lua (α : Type*) := Except LuaError α

namespace Lua

universe u v

variable {α β : Type u} {σ : Type v}

/-- `l[i]`, positions counted from one, `none` standing for nil. -/
def nth (l : List α) (i : Nat) : Option α := if i = 0 then none else l[i - 1]?

/-- A value that is used: nil raises `error`. -/
def need (error : LuaError) : Option α → Lua α
  | none => .error error
  | some a => .ok a

/-- `table.sort(l, lt)`. The comparison is a strict weak order at every use, so the order of
elements that compare equal is all the language leaves open. -/
def tableSort (lt : α → α → Bool) (l : List α) : List α :=
  l.insertionSort fun a b => lt b a = false

section Positions

variable {l : List α} {a : α} {i : Nat}

theorem mem_of_nth (ha : nth l i = some a) : a ∈ l := by
  unfold nth at ha
  split_ifs at ha
  exact List.mem_of_getElem? ha

theorem exists_nth_of_mem (ha : a ∈ l) : ∃ i, nth l i = some a := by
  obtain ⟨i, hi, rfl⟩ := List.getElem_of_mem ha
  exact ⟨i + 1, List.getElem?_eq_getElem hi⟩

theorem exists_nth (hpos : 0 < i) (hle : i ≤ l.length) : ∃ a, nth l i = some a := by
  unfold nth
  rw [if_neg (by omega)]
  exact ⟨_, List.getElem?_eq_getElem (by omega)⟩

theorem nth_bounds (ha : nth l i = some a) : 0 < i ∧ i ≤ l.length := by
  unfold nth at ha
  split_ifs at ha
  obtain ⟨hi, -⟩ := List.getElem?_eq_some_iff.1 ha
  omega

theorem rel_of_nth {r : α → α → Prop} {b : α} {j : Nat} (hpair : l.Pairwise r)
    (ha : nth l i = some a)
    (hb : nth l j = some b) (hij : i < j) : r a b := by
  unfold nth at ha hb
  split_ifs at ha hb
  obtain ⟨hi, rfl⟩ := List.getElem?_eq_some_iff.1 ha
  obtain ⟨hj, rfl⟩ := List.getElem?_eq_some_iff.1 hb
  exact List.pairwise_iff_getElem.1 hpair _ _ hi hj (by omega)

theorem filterMap_nth (l : List α) : (List.range' 1 l.length).filterMap (nth l) = l := by
  induction l with
  | nil => rfl
  | cons a l ih =>
      rw [List.length_cons, List.range'_succ,
        List.filterMap_cons_some (show nth (a :: l) 1 = some a from rfl), List.range'_eq_map_range,
        List.filterMap_map]
      rw [List.range'_eq_map_range, List.filterMap_map] at ih
      congr 1
      refine Eq.trans (List.filterMap_congr fun j _ => ?_) ih
      unfold nth
      rw [Function.comp_apply, Function.comp_apply, if_neg (by omega), if_neg (by omega)]
      rw [show 1 + 1 + j - 1 = (1 + j - 1) + 1 by omega, List.getElem?_cons_succ]

/-- Elements read at different positions. -/
theorem subperm_of_nth {is : List Nat} {as : List α} (hnodup : is.Nodup)
    (hread : List.Forall₂ (fun i a => nth l i = some a) is as) : as.Subperm l := by
  have has : is.filterMap (nth l) = as := by
    clear hnodup
    induction hread with
    | nil => rfl
    | cons hi _ ih => rw [List.filterMap_cons_some hi, ih]
  have hsubset : is ⊆ List.range' 1 l.length := by
    clear has hnodup
    induction hread with
    | nil => exact List.nil_subset _
    | cons hi _ ih =>
        refine List.cons_subset.2 ⟨List.mem_range'_1.2 ?_, ih⟩
        have := nth_bounds hi
        omega
  obtain ⟨js, hperm, hsub⟩ := hnodup.subperm hsubset
  have hread' : (is.filterMap (nth l)).Subperm ((List.range' 1 l.length).filterMap (nth l)) :=
    ⟨js.filterMap (nth l), hperm.filterMap _, hsub.filterMap _⟩
  rwa [has, filterMap_nth] at hread'

end Positions

theorem tableSort_perm (lt : α → α → Bool) (l : List α) : (tableSort lt l).Perm l :=
  List.perm_insertionSort _ l

theorem length_tableSort (lt : α → α → Bool) (l : List α) : (tableSort lt l).length = l.length :=
  (tableSort_perm lt l).length_eq

theorem mem_tableSort {lt : α → α → Bool} {l : List α} {a : α} : a ∈ tableSort lt l ↔ a ∈ l :=
  (tableSort_perm lt l).mem_iff

/-- `l[i].field`: the element itself, raising when the position is empty. -/
def elem (l : List α) (i : Nat) : Lua α := need .indexNil (nth l i)

/-- Nothing in a sorted list belongs before what stands to its left. -/
theorem pairwise_tableSort_of {lt : α → α → Bool} (htotal : ∀ a b, lt a b = false ∨ lt b a = false)
    (htrans : ∀ a b c, lt b a = false → lt c b = false → lt c a = false) (l : List α) :
    (tableSort lt l).Pairwise fun a b => lt b a = false := by
  have htotal' : Std.Total fun a b : α => lt b a = false := ⟨fun a b => (htotal b a)⟩
  have htrans' : IsTrans α fun a b => lt b a = false := ⟨htrans⟩
  exact List.pairwise_insertionSort _ l

/-- A list that is sorted by a key has the larger keys first. -/
theorem pairwise_tableSort {β : Type*} [LinearOrder β] {lt : α → α → Bool} {key : α → β}
    (hlt : ∀ a b, lt a b = true ↔ key b < key a) (l : List α) :
    (tableSort lt l).Pairwise fun a b => key b ≤ key a := by
  have hle : ∀ a b, lt b a = false ↔ key b ≤ key a := fun a b => by
    rw [← Bool.not_eq_true, hlt, not_lt]
  refine (pairwise_tableSort_of (fun a b => ?_) (fun a b c => ?_) l).imp fun h => (hle _ _).1 h
  · rw [hle, hle]
    exact le_total _ _
  · rw [hle, hle, hle]
    exact fun hab hbc => hbc.trans hab

@[simp]
theorem need_some (error : LuaError) (a : α) : need error (some a) = .ok a := rfl

@[simp]
theorem need_none (error : LuaError) : need error (none : Option α) = .error error := rfl

@[simp]
theorem need_eq_ok {error : LuaError} {o : Option α} {a : α} :
    need error o = .ok a ↔ o = some a := by
  cases o with
  | none => simp
  | some b => simp

@[simp]
theorem ok_bind (a : α) (f : α → Lua β) : (Except.ok a >>= f : Lua β) = f a := rfl

@[simp]
theorem error_bind (e : LuaError) (f : α → Lua β) : (Except.error e >>= f : Lua β) = .error e := rfl

@[simp]
theorem pure_eq_ok (a : α) : (pure a : Lua α) = .ok a := rfl

@[simp]
theorem throw_eq_error (e : LuaError) : (throw e : Lua α) = .error e := rfl

theorem bind_eq_ok {x : Lua α} {f : α → Lua β} {b : β} :
    (x >>= f) = .ok b ↔ ∃ a, x = .ok a ∧ f a = .ok b := by
  cases x with
  | error e => simp
  | ok a => simp

/-- A loop whose body raises nowhere does not raise. -/
theorem foldlM_ok_of_body {f : σ → α → Lua σ} {l : List α}
    (hbody : ∀ a ∈ l, ∀ s, ∃ s', f s a = .ok s') (s : σ) : ∃ r, l.foldlM f s = .ok r := by
  induction l generalizing s with
  | nil => exact ⟨s, rfl⟩
  | cons b rest ih =>
      obtain ⟨s', hb⟩ := hbody b (List.mem_cons_self ..) s
      rw [List.foldlM_cons, hb]
      exact ih (fun a ha => hbody a (List.mem_cons_of_mem _ ha)) s'

/-- What the body of a loop preserves holds at its end. -/
theorem foldlM_ok_invariant {f : σ → α → Lua σ} {l : List α} {P : σ → Prop}
    (hbody : ∀ a ∈ l, ∀ t t', P t → f t a = .ok t' → P t') {s r : σ} (hs : P s)
    (h : l.foldlM f s = .ok r) : P r := by
  induction l generalizing s with
  | nil =>
      cases h
      exact hs
  | cons b rest ih =>
      rw [List.foldlM_cons] at h
      obtain ⟨t, hb, hrest⟩ := bind_eq_ok.mp h
      exact ih (fun a ha => hbody a (List.mem_cons_of_mem _ ha))
        (hbody b (List.mem_cons_self ..) s t hs hb) hrest

/-- What a loop keeps once it has it, and some element brings about, holds at its end. -/
theorem foldlM_ok_reaches {f : σ → α → Lua σ} {l : List α} {P : σ → Prop}
    (hkeep : ∀ a ∈ l, ∀ s, ∃ s', f s a = .ok s' ∧ (P s → P s')) {s : σ}
    (hreach : P s ∨ ∃ a ∈ l, ∀ s s', f s a = .ok s' → P s') : ∃ r, l.foldlM f s = .ok r ∧ P r := by
  induction l generalizing s with
  | nil =>
      rcases hreach with hs | ⟨a, ha, -⟩
      · exact ⟨s, rfl, hs⟩
      · exact absurd ha List.not_mem_nil
  | cons b rest ih =>
      obtain ⟨s', hb, hstep⟩ := hkeep b (List.mem_cons_self ..) s
      rw [List.foldlM_cons, hb, ok_bind]
      refine ih (fun a ha => hkeep a (List.mem_cons_of_mem _ ha)) ?_
      rcases hreach with hs | ⟨a, ha, hreach⟩
      · exact .inl (hstep hs)
      · rcases List.mem_cons.1 ha with rfl | ha
        · exact .inl (hreach s s' hb)
        · exact .inr ⟨a, ha, hreach⟩

/-- A loop that raises nowhere ran its body at every element without raising. -/
theorem foldlM_ok_body {f : σ → α → Lua σ} {l : List α} {s r : σ} (h : l.foldlM f s = .ok r) :
    ∀ a ∈ l, ∃ t t', f t a = .ok t' := by
  induction l generalizing s with
  | nil => simp
  | cons b rest ih =>
      rw [List.foldlM_cons] at h
      obtain ⟨t, hb, hrest⟩ := bind_eq_ok.mp h
      intro a ha
      rcases List.mem_cons.mp ha with rfl | ha
      · exact ⟨s, t, hb⟩
      · exact ih hrest a ha

/-- A loop that adds to a number at every element adds the sum. -/
theorem foldlM_ok_sum {f : σ → α → Lua σ} {l : List α} (measure : σ → Int) (gain : α → Int)
    (hbody : ∀ a ∈ l, ∀ t t', f t a = .ok t' → measure t' = measure t + gain a) {s r : σ}
    (h : l.foldlM f s = .ok r) : measure r = measure s + (l.map gain).sum := by
  induction l generalizing s with
  | nil =>
      cases h
      simp
  | cons b rest ih =>
      rw [List.foldlM_cons] at h
      obtain ⟨t, hb, hrest⟩ := bind_eq_ok.mp h
      rw [ih (fun a ha => hbody a (List.mem_cons_of_mem _ ha)) hrest,
        hbody b (List.mem_cons_self ..) s t hb, List.map_cons, List.sum_cons, add_assoc]

/-- A loop that fills one cell at every element, each its own, leaves all of them filled. -/
theorem foldlM_ok_fill {κ β : Type*} {f : σ → α → Lua σ} {l : List α} (cell : σ → κ → β)
    (key : α → κ) (filled : α → β → Prop) (hnodup : (l.map key).Nodup)
    (hbody : ∀ a ∈ l, ∀ t t', f t a = .ok t' →
      (∀ k, k ≠ key a → cell t' k = cell t k) ∧ filled a (cell t' (key a))) {s r : σ}
    (h : l.foldlM f s = .ok r) :
    (∀ k, k ∉ l.map key → cell r k = cell s k) ∧ ∀ a ∈ l, filled a (cell r (key a)) := by
  induction l generalizing s with
  | nil =>
      cases h
      exact ⟨fun _ _ => rfl, fun _ ha => absurd ha (List.not_mem_nil)⟩
  | cons b rest ih =>
      rw [List.foldlM_cons] at h
      obtain ⟨t, hb, hrest⟩ := bind_eq_ok.mp h
      rw [List.map_cons, List.nodup_cons] at hnodup
      obtain ⟨hframe, hfilled⟩ := hbody b (List.mem_cons_self ..) s t hb
      obtain ⟨hframe', hfilled'⟩ :=
        ih hnodup.2 (fun a ha => hbody a (List.mem_cons_of_mem _ ha)) hrest
      refine ⟨fun k hk => ?_, fun a ha => ?_⟩
      · rw [List.map_cons, List.mem_cons, not_or] at hk
        rw [hframe' k hk.2, hframe k hk.1]
      · rcases List.mem_cons.mp ha with rfl | ha
        · rw [hframe' _ hnodup.1]
          exact hfilled
        · exact hfilled' a ha

/-- A flag that every element may clear stands at the end when no element did. -/
theorem foldlM_ok_flag {f : σ → α → Lua σ} {l : List α} (flag : σ → Prop) (keeps : α → Prop)
    (hbody : ∀ a ∈ l, ∀ t t', f t a = .ok t' → (flag t' ↔ flag t ∧ keeps a)) {s r : σ}
    (h : l.foldlM f s = .ok r) : flag r ↔ flag s ∧ ∀ a ∈ l, keeps a := by
  induction l generalizing s with
  | nil =>
      cases h
      simp
  | cons b rest ih =>
      rw [List.foldlM_cons] at h
      obtain ⟨t, hb, hrest⟩ := bind_eq_ok.mp h
      rw [ih (fun a ha => hbody a (List.mem_cons_of_mem _ ha)) hrest,
        hbody b (List.mem_cons_self ..) s t hb, List.forall_mem_cons, and_assoc]

/-- A map whose body raises nowhere does not raise. -/
theorem mapM_ok_of_body {f : α → Lua β} {l : List α} (hbody : ∀ a ∈ l, ∃ b, f a = .ok b) :
    ∃ r, l.mapM f = .ok r := by
  induction l with
  | nil => exact ⟨[], List.mapM_nil⟩
  | cons a rest ih =>
      rw [List.forall_mem_cons] at hbody
      obtain ⟨b, hb⟩ := hbody.1
      obtain ⟨r, hr⟩ := ih hbody.2
      exact ⟨b :: r, by rw [List.mapM_cons, hb, hr]; rfl⟩

/-- A raising map that goes through has computed every element. -/
theorem mapM_ok_forall₂ {f : α → Lua β} {l : List α} {r : List β} (hr : l.mapM f = .ok r) :
    List.Forall₂ (fun a b => f a = .ok b) l r := by
  induction l generalizing r with
  | nil =>
      rw [List.mapM_nil] at hr
      cases hr
      exact .nil
  | cons a rest ih =>
      rw [List.mapM_cons] at hr
      obtain ⟨b, hb, hr⟩ := bind_eq_ok.mp hr
      obtain ⟨rest', hrest, hr⟩ := bind_eq_ok.mp hr
      cases hr
      exact .cons hb (ih hrest)

/-- What every result of a raising map has in common with what it was computed from. -/
theorem mapM_ok_map {γ : Type*} {f : α → Lua β} {g : β → γ} {h : α → γ}
    (hf : ∀ a b, f a = .ok b → g b = h a) {l : List α} {r : List β} (hr : l.mapM f = .ok r) :
    r.map g = l.map h := by
  have hall := mapM_ok_forall₂ hr
  clear hr
  induction hall with
  | nil => rfl
  | cons hab _ ih => rw [List.map_cons, List.map_cons, hf _ _ hab, ih]

/-- The results of a raising map, one by one. -/
theorem mem_of_mapM_ok {f : α → Lua β} {l : List α} {r : List β} (hr : l.mapM f = .ok r) (b : β) :
    b ∈ r ↔ ∃ a ∈ l, f a = .ok b := by
  have hall := mapM_ok_forall₂ hr
  clear hr
  induction hall with
  | nil => simp
  | cons hab _ ih => simp [ih, hab, eq_comm]

/-- A loop over statements that take effect one by one, up to the first one that raises. -/
def each {α σ : Type*} (f : σ → α → σ × Option LuaError) (s : σ) : List α → σ × Option LuaError
  | [] => (s, none)
  | a :: rest =>
      match (f s a).2 with
      | none => each f (f s a).1 rest
      | some e => ((f s a).1, some e)

/-- A loop whose body does not raise keeps what every turn keeps, the invariant saying what the
turns so far have done. -/
theorem each_ok {α σ : Type*} {f : σ → α → σ × Option LuaError} {l : List α}
    (Inv : List α → σ → Prop)
    (hstep : ∀ seen a rest, l = seen ++ a :: rest → ∀ s, Inv seen s →
      (f s a).2 = none ∧ Inv (seen ++ [a]) (f s a).1) {s : σ} (hs : Inv [] s) :
    (each f s l).2 = none ∧ Inv l (each f s l).1 := by
  suffices h : ∀ rest seen s, l = seen ++ rest → Inv seen s →
      (each f s rest).2 = none ∧ Inv l (each f s rest).1 from h l [] s rfl hs
  intro rest
  induction rest with
  | nil =>
      rintro seen s rfl hs
      rw [List.append_nil]
      exact ⟨rfl, hs⟩
  | cons a rest ih =>
      intro seen s hl hs
      obtain ⟨hok, hnext⟩ := hstep seen a rest hl s hs
      simp only [each, hok]
      exact ih (seen ++ [a]) _ (by simp [hl]) hnext

end Lua

/-- A sum over ordered pairs of a list vanishes when swapping a pair changes the sign. -/
theorem List.sum_sum_eq_zero_of_antisymm {α : Type*} (l : List α) (f : α → α → ℤ)
    (hanti : ∀ x ∈ l, ∀ y ∈ l, f x y = -f y x) :
    (l.map fun x => (l.map (f x)).sum).sum = 0 := by
  induction l with
  | nil => rfl
  | cons a rest ih =>
      have hself : f a a = 0 := by
        have := hanti a (List.mem_cons_self ..) a (List.mem_cons_self ..)
        omega
      have hrest : (rest.map fun x => (rest.map (f x)).sum).sum = 0 :=
        ih fun x hx y hy => hanti x (List.mem_cons_of_mem _ hx) y (List.mem_cons_of_mem _ hy)
      have hrow : (rest.map (f a)).sum + (rest.map fun x => f x a).sum = 0 := by
        rw [← List.sum_map_add]
        apply List.sum_eq_zero
        intro z hz
        obtain ⟨x, hx, rfl⟩ := List.mem_map.mp hz
        have := hanti a (List.mem_cons_self ..) x (List.mem_cons_of_mem _ hx)
        omega
      simp only [List.map_cons, List.sum_cons, hself, List.sum_map_add, hrest]
      omega
