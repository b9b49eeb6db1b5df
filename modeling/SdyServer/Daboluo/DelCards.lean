import SdyServer.Daboluo.SpecialExact
import SdyServer.Lib.Arrays

/-!
# Deleting cards

`delCards` copies both lists and deletes from the copies, with two loops that run backwards over one
of them while they remove cards from both. It deletes as many cards of a kind as the second list
has, ordinary cards by suit and value and jokers by their number, and the lists it was given stay as
they were.
-/

namespace SdyServer.Daboluo

section Code

/-- `PokerUtils.copy`, of nil as well. -/
def copyArray (s : Arrays Card) (cArr : Option Nat) : Arrays Card × Nat :=
  s.alloc (copy (cArr.map s.array))

/-- The inner loop at a card `c` at position `i` of `a`: the first card of `b` that it hits is
removed with it. -/
def removeHit (hit : Card → Card → Bool) (a b : Nat) (s : Arrays Card) (i : Nat) (c : Card) :
    Arrays Card :=
  match (s.array b).findIdx? (hit c) with
  | none => s
  | some l => (s.remove b (l + 1)).remove a i

/-- A loop over `a` from position `i` down to one, as long as there are cards in `b`. -/
def removeFrom (hit : Card → Card → Bool) (a b : Nat) : Nat → Arrays Card → Arrays Card
  | 0, s => s
  | i + 1, s =>
      if (s.array b).length = 0 then s
      else
        match Lua.nth (s.array a) (i + 1) with
        | none => removeFrom hit a b i s
        | some c => removeFrom hit a b i (removeHit hit a b s (i + 1) c)

/-- `PokerUtils.delCards`, on arrays behind references. -/
def delCardsArray (s : Arrays Card) (a1 b1 : Option Nat) : Arrays Card × Nat :=
  let (s, a) := copyArray s a1
  let (s, b) := copyArray s b1
  let s := removeFrom sameCard a b (s.array a).length s
  let s := if (s.array b).length > 0 then removeFrom bothJokers a b (s.array a).length s else s
  (s, a)

end Code

section Loop

variable {hit : Card → Card → Bool} {a b : Nat} {s : Arrays Card} {pre suf : List Card} {c : Card}

/-- What a loop has changed. -/
structure Passed (hit : Card → Card → Bool) (a b : Nat) (s : Arrays Card) (pre suf : List Card)
    (s' : Arrays Card) : Prop where
  kept : s'.array a = (delPass hit pre.reverse (s.array b)).1.reverse ++ suf
  left : s'.array b = (delPass hit pre.reverse (s.array b)).2
  other : ∀ ref, ref ≠ a → ref ≠ b → s'.array ref = s.array ref
  next : s'.next = s.next

/-- **A loop is a pass** over the cards before its position, from the last one on. -/
theorem removeFrom_passed (hne : a ≠ b) (harray : s.array a = pre ++ suf) :
    Passed hit a b s pre suf (removeFrom hit a b pre.length s) := by
  induction pre using List.reverseRecOn generalizing s suf with
  | nil => exact ⟨harray, rfl, fun _ _ _ => rfl, rfl⟩
  | append_singleton pre c ih =>
      have hback : (pre ++ [c]).reverse = c :: pre.reverse := List.reverse_concat
      have hread : Lua.nth (s.array a) (pre.length + 1) = some c := by
        rw [harray, Lua.nth, if_neg (Nat.succ_ne_zero _), Nat.add_sub_cancel, List.append_assoc,
          List.getElem?_append_right (le_refl _), Nat.sub_self]
        rfl
      rw [List.length_append, List.length_singleton, removeFrom, hread]
      split_ifs with hempty
      · have hpass : delPass hit (pre ++ [c]).reverse (s.array b) = ((pre ++ [c]).reverse, []) := by
          rw [List.length_eq_zero_iff.1 hempty, delPass_of_no_hit (by simp)]
        refine ⟨?_, ?_, fun _ _ _ => rfl, rfl⟩
        · rw [hpass, List.reverse_reverse, harray]
        · rw [hpass, List.length_eq_zero_iff.1 hempty]
      · dsimp only
        rw [removeHit]
        cases hfound : (s.array b).findIdx? (hit c) with
        | none =>
            have hany : ¬(s.array b).any (hit c) = true := by
              rw [← List.findIdx?_isSome, hfound]
              simp
            have harray' : s.array a = pre ++ ([c] ++ suf) := by rw [harray, List.append_assoc]
            obtain ⟨hkept, hleft, hother, hnext⟩ := ih harray'
            refine ⟨?_, ?_, hother, hnext⟩
            · rw [hback, delPass, if_neg hany]
              simpa using hkept
            · rw [hback, delPass, if_neg hany]
              exact hleft
        | some l =>
            have hany : (s.array b).any (hit c) = true := by
              rw [← List.findIdx?_isSome, hfound]
              rfl
            have hb : ((s.remove b (l + 1)).remove a (pre.length + 1)).array b =
                (s.array b).eraseP (hit c) := by
              rw [Arrays.remove_other hne.symm, Arrays.remove_self, Nat.add_sub_cancel,
                List.eraseP_eq_eraseIdx,
                hfound]
            have ha : ((s.remove b (l + 1)).remove a (pre.length + 1)).array a = pre ++ suf := by
              rw [Arrays.remove_self, Arrays.remove_other hne, harray, Nat.add_sub_cancel,
                List.append_assoc,
                List.eraseIdx_append_of_length_le (le_refl _), Nat.sub_self]
              rfl
            obtain ⟨hkept, hleft, hother, hnext⟩ := ih ha
            rw [hb] at hkept hleft
            refine ⟨?_, ?_, fun ref href href' => ?_, hnext⟩
            · rw [hback, delPass, if_pos hany]
              exact hkept
            · rw [hback, delPass, if_pos hany]
              exact hleft
            · rw [hother ref href href', Arrays.remove_other href, Arrays.remove_other href']

/-- **The loops on the copies compute `delCards`**, and change no array that was there before. -/
theorem delCardsArray_eq (s : Arrays Card) (a1 : Option Nat) {b1 : Option Nat}
    (hb : ∀ ref ∈ b1, ref < s.next) :
    (delCardsArray s a1 b1).1.array (delCardsArray s a1 b1).2 = delCards (a1.map s.array)
    (b1.map s.array) ∧
      ∀ ref, ref < s.next → (delCardsArray s a1 b1).1.array ref = s.array ref := by
  have hcopyB : copy (b1.map (s.alloc (copy (a1.map s.array))).1.array) =
      copy (b1.map s.array) := by
    cases b1 with
    | none => rfl
    | some ref => exact Arrays.alloc_old (hb ref rfl)
  -- the two copies
  set s₂ := (copyArray (copyArray s a1).1 b1).1 with hs₂
  have hnew : s₂.array s.next = copy (a1.map s.array) := by
    rw [hs₂, copyArray, Arrays.alloc_old (Nat.lt_succ_self _), copyArray, Arrays.alloc_new]
  have hnew' : s₂.array (s.next + 1) = copy (b1.map s.array) := by
    rw [hs₂, copyArray, copyArray, ← Arrays.alloc_next, Arrays.alloc_new, hcopyB]
  have hold : ∀ ref, ref < s.next → s₂.array ref = s.array ref := by
    intro ref href
    rw [hs₂, copyArray, Arrays.alloc_old (Nat.lt_succ_of_lt href), copyArray, Arrays.alloc_old href]
  have hne : s.next ≠ s.next + 1 := Nat.ne_of_lt (Nat.lt_succ_self _)
  obtain ⟨s₃, hs₃⟩ : ∃ s₃, removeFrom sameCard s.next (s.next + 1) (s₂.array s.next).length s₂ =
    s₃ := ⟨_, rfl⟩
  have hpassed : Passed sameCard s.next (s.next + 1) s₂ (s₂.array s.next) [] s₃ :=
    hs₃ ▸ removeFrom_passed hne (List.append_nil _).symm
  obtain ⟨hkept, hleft, hother, -⟩ := hpassed
  rw [List.append_nil, hnew, hnew'] at hkept
  rw [hnew, hnew'] at hleft
  have hrun : delCardsArray s a1 b1 = (if (s₃.array (s.next + 1)).length > 0 then
      removeFrom bothJokers s.next (s.next + 1) (s₃.array s.next).length s₃ else s₃, s.next) := by
    rw [← hs₃]
    rfl
  have hdel : delCards (a1.map s.array) (b1.map s.array) =
      (if (s₃.array (s.next + 1)).length > 0 then
      (delPass bothJokers (s₃.array s.next).reverse (s₃.array (s.next + 1))).1
      else (s₃.array s.next).reverse).reverse := by
    rw [hkept, hleft, List.reverse_reverse]
    unfold delCards
    dsimp only
    split_ifs <;> rfl
  have hframe : ∀ ref, ref < s.next → s₃.array ref = s.array ref := by
    intro ref href
    rw [hother ref (by omega) (by omega), hold ref href]
  rw [hrun, hdel]
  split_ifs
  · obtain ⟨hkept', -, hother', -⟩ :=
      @removeFrom_passed bothJokers _ _ s₃ _ _ hne (List.append_nil _).symm
    refine ⟨hkept'.trans (List.append_nil _), fun ref href => ?_⟩
    rw [hother' ref (by omega) (by omega), hframe ref href]
  · exact ⟨(List.reverse_reverse _).symm, hframe⟩

end Loop

section Counts

variable {hit : Card → Card → Bool} {p : Card → Bool} {b : List Card}

/-- One card that is hit is removed. -/
theorem exists_perm_eraseP (hany : b.any p = true) :
    ∃ d, p d = true ∧ b.Perm (d :: b.eraseP p) := by
  obtain ⟨d, hd, hp⟩ := List.any_eq_true.1 hany
  obtain ⟨d', l₁, l₂, -, hp', hsplit, herase⟩ := List.exists_of_eraseP hd hp
  refine ⟨d', hp', ?_⟩
  rw [herase, hsplit]
  exact List.perm_middle

/-- A pass takes as many cards of a kind from each list as the other has. -/
theorem countP_delPass (hsame : ∀ c d, p c = true → hit c d = p d)
    (hother : ∀ c d, p c = false → hit c d = true → p d = false) (a b : List Card) :
    (delPass hit a b).1.countP p = a.countP p - b.countP p ∧
      (delPass hit a b).2.countP p = b.countP p - a.countP p := by
  induction a generalizing b with
  | nil => simp [delPass]
  | cons c rest ih =>
      rw [delPass]
      cases hc : p c with
      | true =>
          have hhit : hit c = p := funext fun d => hsame c d hc
          rw [hhit, List.countP_cons_of_pos hc]
          split_ifs with hany
          · obtain ⟨d, hd, hperm⟩ := exists_perm_eraseP hany
            have hcount := hperm.countP_eq p
            rw [List.countP_cons_of_pos hd] at hcount
            obtain ⟨hkept, hleft⟩ := ih (b.eraseP p)
            exact ⟨by omega, by omega⟩
          · have hnone : b.countP p = 0 := by
              rw [List.countP_eq_zero]
              exact fun d hd hp => hany (List.any_eq_true.2 ⟨d, hd, hp⟩)
            obtain ⟨hkept, hleft⟩ := ih b
            refine ⟨?_, ?_⟩
            · rw [List.countP_cons_of_pos hc, hkept]
              omega
            · show (delPass hit rest b).2.countP p = _
              omega
      | false =>
          rw [List.countP_cons_of_neg (by simp [hc])]
          split_ifs with hany
          · obtain ⟨d, hd, hperm⟩ := exists_perm_eraseP hany
            have hcount := hperm.countP_eq p
            rw [List.countP_cons_of_neg (by simp [hother c d hc hd])] at hcount
            rw [hcount]
            exact ih _
          · rw [List.countP_cons_of_neg (by simp [hc])]
            exact ih b

/-- A kind of cards that is never hit. -/
theorem countP_delPass_of_miss (hmiss : ∀ c d, hit c d = true → p c = false ∧ p d = false)
    (a b : List Card) :
    (delPass hit a b).1.countP p = a.countP p ∧ (delPass hit a b).2.countP p = b.countP p := by
  induction a generalizing b with
  | nil => exact ⟨rfl, rfl⟩
  | cons c rest ih =>
      rw [delPass]
      split_ifs with hany
      · obtain ⟨d, hd, hperm⟩ := exists_perm_eraseP hany
        have hcount := hperm.countP_eq p
        obtain ⟨hc, hd'⟩ := hmiss c d hd
        rw [List.countP_cons_of_neg (by simp [hd'])] at hcount
        rw [List.countP_cons_of_neg (by simp [hc]), hcount]
        exact ih _
      · obtain ⟨hkept, hleft⟩ := ih b
        refine ⟨?_, hleft⟩
        rw [List.countP_cons, List.countP_cons, hkept]

def isKind (t v : Int) (c : Card) : Bool := c.type = t ∧ c.value = v

def isJoker (c : Card) : Bool := c.type = 5

theorem sameCard_eq_true {c d : Card} : sameCard c d = true ↔ d.type < 5 ∧ c.value = d.value ∧
    c.type = d.type := by
  simp [sameCard, and_assoc]

theorem bothJokers_eq_true {c d : Card} : bothJokers c d = true ↔ c.type = 5 ∧ d.type = 5 := by
  simp [bothJokers]

theorem delCards_eq (a b : List Card) : delCards (some a) (some b) =
    (delPass bothJokers (delPass sameCard a.reverse b).1
      (delPass sameCard a.reverse b).2).1.reverse := by
  show (if (delPass sameCard a.reverse b).2.length > 0 then
      delPass bothJokers (delPass sameCard a.reverse b).1 (delPass sameCard a.reverse b).2
    else delPass sameCard a.reverse b).1.reverse = _
  split_ifs with hleft
  · rfl
  · have hpass : delPass bothJokers (delPass sameCard a.reverse b).1 [] =
        ((delPass sameCard a.reverse b).1, []) :=
      delPass_of_no_hit (by simp)
    rw [List.length_eq_zero_iff.1 (Nat.eq_zero_of_not_pos hleft), hpass]

/-- The ordinary cards are deleted by the first pass. -/
theorem countP_delCards {t : Int} (ht : t < 5) (v : Int) (a b : List Card) :
    (delCards (some a) (some b)).countP (isKind t v) = a.countP (isKind t v) - b.countP
    (isKind t v) := by
  have hsame : ∀ c d, isKind t v c = true → sameCard c d = isKind t v d := by
    intro c d hc
    obtain ⟨htype, hvalue⟩ := of_decide_eq_true hc
    rw [Bool.eq_iff_iff, sameCard_eq_true, isKind, decide_eq_true_eq, htype, hvalue]
    constructor
    · rintro ⟨-, hv, ht'⟩
      exact ⟨ht'.symm, hv.symm⟩
    · rintro ⟨ht', hv⟩
      exact ⟨by omega, hv.symm, ht'.symm⟩
  have hother : ∀ c d, isKind t v c = false → sameCard c d = true → isKind t v d = false := by
    intro c d hc hhit
    obtain ⟨-, hv, ht'⟩ := sameCard_eq_true.1 hhit
    rw [← hc, isKind, isKind, hv, ht']
  have hmiss : ∀ c d, bothJokers c d = true → isKind t v c = false ∧ isKind t v d = false := by
    intro c d hhit
    obtain ⟨hc, hd⟩ := bothJokers_eq_true.1 hhit
    exact ⟨decide_eq_false (by omega), decide_eq_false (by omega)⟩
  rw [delCards_eq, List.countP_reverse, (countP_delPass_of_miss hmiss _ _).1,
    (countP_delPass hsame hother _ _).1,
    List.countP_reverse]

/-- The jokers are deleted by the second pass. -/
theorem countP_delCards_jokers (a b : List Card) :
    (delCards (some a) (some b)).countP isJoker = a.countP isJoker - b.countP isJoker := by
  have hmiss : ∀ c d, sameCard c d = true → isJoker c = false ∧ isJoker d = false := by
    intro c d hhit
    obtain ⟨hd, -, htype⟩ := sameCard_eq_true.1 hhit
    exact ⟨decide_eq_false (by omega), decide_eq_false (by omega)⟩
  have hsame : ∀ c d, isJoker c = true → bothJokers c d = isJoker d := by
    intro c d hc
    rw [Bool.eq_iff_iff, bothJokers_eq_true, isJoker, decide_eq_true_eq,
      and_iff_right (of_decide_eq_true hc)]
  have hother : ∀ c d, isJoker c = false → bothJokers c d = true → isJoker d = false := by
    intro c d hc hhit
    rw [isJoker, decide_eq_true (bothJokers_eq_true.1 hhit).1] at hc
    cases hc
  obtain ⟨hkept, hleft⟩ := countP_delPass_of_miss hmiss a.reverse b
  rw [delCards_eq, List.countP_reverse, (countP_delPass hsame hother _ _).1, hkept, hleft,
    List.countP_reverse]

/-- **`delCards` is multiset difference.** What it returns is what is left of the first list, in its
order, without as many cards of each kind as the second list has. All arrays that there were stay as
they are, also when both lists are one array. -/
theorem delCards_difference (s : Arrays Card) (a b : Fin s.next) :
    ∃ r s', delCardsArray s (some a) (some b) = (s', r) ∧ (s'.array r).Sublist (s.array a) ∧
      (∀ t v, t < 5 → (s'.array r).countP (isKind t v) =
        (s.array a).countP (isKind t v) - (s.array b).countP (isKind t v)) ∧
      (s'.array r).countP isJoker = (s.array a).countP isJoker - (s.array b).countP isJoker ∧
      ∀ ref, ref < s.next → s'.array ref = s.array ref := by
  obtain ⟨hresult, hframe⟩ :=
    @delCardsArray_eq s (some a) (some b) (fun _ href => Option.some.inj href ▸ b.isLt)
  obtain ⟨⟨s', r⟩, hrun⟩ : ∃ out, delCardsArray s (some a) (some b) = out := ⟨_, rfl⟩
  rw [hrun] at hresult hframe
  replace hresult : s'.array r = delCards (some (s.array a)) (some (s.array b)) := hresult
  refine ⟨r, s', hrun, ?_, fun t v ht => ?_, ?_, hframe⟩
  · rw [hresult]
    exact delCards_sublist _ _
  · rw [hresult]
    exact countP_delCards ht v _ _
  · rw [hresult]
    exact countP_delCards_jokers _ _

end Counts

end SdyServer.Daboluo
