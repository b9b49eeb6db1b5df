import Mathlib.Data.List.Perm.Subperm
import SdyServer.Daboluo.Submit

/-!
# Submitted cards

Deleting the dealt cards from a submitted hand leaves nothing exactly when the hand is part of the
deal.
-/

namespace SdyServer.Daboluo

section DelCards

variable {hit : Card → Card → Bool} {a b : List Card}

theorem eraseP_eq_erase {p : Card → Bool} {c : Card} (hp : ∀ d ∈ b, p d = true ↔ c = d) :
    b.eraseP p = b.erase c := by
  induction b with
  | nil => rfl
  | cons d rest ih =>
      have hd := hp d (List.mem_cons_self ..)
      have hrest := ih fun d' hd' => hp d' (List.mem_cons_of_mem _ hd')
      by_cases heq : c = d
      · rw [List.eraseP_cons_of_pos (hd.mpr heq), heq, List.erase_cons_head]
      · rw [List.eraseP_cons_of_neg (fun h => heq (hd.mp h)), hrest,
          List.erase_cons_tail (by simpa using Ne.symm heq)]

/-- Where only equal cards match, a pass keeps nothing exactly when all of `a` is in `b`. -/
theorem delPass_eq_nil_iff (hhit : ∀ c ∈ a, ∀ d ∈ b, hit c d = true ↔ c = d) :
    (delPass hit a b).1 = [] ↔ a.Subperm b := by
  induction a generalizing b with
  | nil => simp [delPass]
  | cons c rest ih =>
      have hc : ∀ d ∈ b, hit c d = true ↔ c = d := hhit c (List.mem_cons_self ..)
      by_cases hmem : c ∈ b
      · have hany : b.any (hit c) = true := List.any_eq_true.mpr ⟨c, hmem, (hc c hmem).mpr rfl⟩
        have hrest : (delPass hit rest (b.erase c)).1 = [] ↔ rest.Subperm (b.erase c) :=
          ih fun c' hc' d hd => hhit c' (List.mem_cons_of_mem _ hc') d (List.mem_of_mem_erase hd)
        rw [delPass, if_pos hany, eraseP_eq_erase hc, hrest, ← List.subperm_cons c]
        exact (List.perm_cons_erase hmem).symm.subperm_left
      · have hany : ¬ b.any (hit c) = true := by
          intro h
          obtain ⟨d, hd, hhit'⟩ := List.any_eq_true.mp h
          exact hmem ((hc d hd).mp hhit' ▸ hd)
        rw [delPass, if_neg hany]
        simp only [reduceCtorEq, false_iff]
        exact fun hsub => hmem (hsub.subset (List.mem_cons_self ..))

theorem delPass_of_no_hit (hmiss : ∀ c ∈ a, ∀ d ∈ b, hit c d = false) :
    delPass hit a b = (a, b) := by
  induction a with
  | nil => rfl
  | cons c rest ih =>
      have hany : b.any (hit c) = false := by
        simpa using hmiss c (List.mem_cons_self ..)
      have hrest := ih fun c' hc' => hmiss c' (List.mem_cons_of_mem _ hc')
      simp [delPass, hany, hrest]

theorem delPass_snd_subset : (delPass hit a b).2 ⊆ b := by
  induction a generalizing b with
  | nil => exact List.Subset.refl b
  | cons c rest ih =>
      rw [delPass]
      split
      · exact List.Subset.trans ih List.eraseP_subset
      · exact ih

theorem delPass_perm (hhit : ∀ c ∈ a, ∀ d ∈ b, hit c d = true ↔ c = d) :
    ((delPass hit a b).1 ++ b).Perm (a ++ (delPass hit a b).2) := by
  induction a generalizing b with
  | nil => exact List.Perm.refl b
  | cons c rest ih =>
      have hc : ∀ d ∈ b, hit c d = true ↔ c = d := hhit c (List.mem_cons_self ..)
      rw [delPass]
      split_ifs with hany
      · obtain ⟨d, hd, hcd⟩ := List.any_eq_true.mp hany
        have hmem : c ∈ b := (hc d hd).mp hcd ▸ hd
        have hrest := @ih (b.erase c) fun c' hc' d hd =>
          hhit c' (List.mem_cons_of_mem _ hc') d (List.mem_of_mem_erase hd)
        rw [eraseP_eq_erase hc]
        refine ((List.perm_cons_erase hmem).append_left _).trans (List.perm_middle.trans ?_)
        exact hrest.cons c
      · exact (@ih b fun c' hc' => hhit c' (List.mem_cons_of_mem _ hc')).cons c

/-- A pass finds all of `b` when it is part of `a`. -/
theorem delPass_snd_eq_nil (hhit : ∀ c ∈ a, ∀ d ∈ b, hit c d = true ↔ c = d) (hsub : b.Subperm a) :
    (delPass hit a b).2 = [] := by
  induction a generalizing b with
  | nil =>
      rw [List.subperm_nil.1 hsub]
      rfl
  | cons c rest ih =>
      have hc : ∀ d ∈ b, hit c d = true ↔ c = d := hhit c (List.mem_cons_self ..)
      have hrest : (b.erase c).Subperm rest := by
        have herase := hsub.erase c
        rwa [List.erase_cons_head] at herase
      rw [delPass]
      split_ifs with hany
      · rw [eraseP_eq_erase hc]
        exact ih (fun c' hc' d hd => hhit c' (List.mem_cons_of_mem _ hc') d
          (List.mem_of_mem_erase hd)) hrest
      · have hmem : c ∉ b := fun hmem =>
          hany (List.any_eq_true.mpr ⟨c, hmem, (hc c hmem).mpr rfl⟩)
        rw [List.erase_of_not_mem hmem] at hrest
        exact ih (fun c' hc' => hhit c' (List.mem_cons_of_mem _ hc')) hrest

def Plain (c : Card) : Prop := 1 ≤ c.type ∧ c.type ≤ 4 ∧ c.suit = none ∧ c.old = none

instance (c : Card) : Decidable (Plain c) := inferInstanceAs (Decidable (_ ∧ _ ∧ _ ∧ _))

theorem sameCard_iff {c d : Card} (hc : c.suit = none ∧ c.old = none) (hd : Plain d) :
    sameCard c d = true ↔ c = d := by
  obtain ⟨hsuit, hold⟩ := hc
  obtain ⟨-, htype, hsuit', hold'⟩ := hd
  obtain ⟨type, value, suit, old⟩ := c
  obtain ⟨type', value', suit', old'⟩ := d
  simp only at hsuit hold htype hsuit' hold'
  subst hsuit hold hsuit' hold'
  simp only [sameCard, Bool.and_eq_true, decide_eq_true_eq, beq_iff_eq, Card.mk.injEq, and_true]
  constructor
  · rintro ⟨⟨-, rfl⟩, rfl⟩
    exact ⟨rfl, rfl⟩
  · rintro ⟨rfl, rfl⟩
    exact ⟨⟨by omega, rfl⟩, rfl⟩

/-- Deleting plain cards leaves nothing exactly when all cards are among them. -/
theorem delCards_eq_nil_iff (ha : ∀ c ∈ a, c.suit = none ∧ c.old = none) (hb : ∀ d ∈ b, Plain d) :
    delCards (some a) (some b) = [] ↔ a.Subperm b := by
  have hhit : ∀ c ∈ a.reverse, ∀ d ∈ b, sameCard c d = true ↔ c = d := fun c hc d hd =>
    sameCard_iff (ha c (List.mem_reverse.mp hc)) (hb d hd)
  have hmiss : ∀ c ∈ (delPass sameCard a.reverse b).1,
      ∀ d ∈ (delPass sameCard a.reverse b).2, bothJokers c d = false := by
    intro c _ d hd
    obtain ⟨-, htype, -⟩ := hb d (delPass_snd_subset hd)
    have hne : ¬ d.type = 5 := by omega
    simp [bothJokers, hne]
  have hfirst : delCards (some a) (some b) = (delPass sameCard a.reverse b).1.reverse := by
    simp only [delCards, copy, Option.getD_some, delPass_of_no_hit hmiss, ite_self]
  rw [hfirst, List.reverse_eq_nil_iff, delPass_eq_nil_iff hhit]
  exact (List.reverse_perm a).subperm_right

/-- Deleting plain cards that are there takes out exactly these. -/
theorem delCards_perm (ha : ∀ c ∈ a, Plain c) (hsub : b.Subperm a) :
    (b ++ delCards (some a) (some b)).Perm a := by
  have hhit : ∀ c ∈ a.reverse, ∀ d ∈ b, sameCard c d = true ↔ c = d := fun c hc d hd =>
    sameCard_iff (ha c (List.mem_reverse.mp hc)).2.2 (ha d (hsub.subset hd))
  have hsub' : b.Subperm a.reverse := (List.reverse_perm a).subperm_left.2 hsub
  have hnil := delPass_snd_eq_nil hhit hsub'
  have hperm := delPass_perm hhit
  rw [hnil, List.append_nil] at hperm
  have hdel : delCards (some a) (some b) = (delPass sameCard a.reverse b).1.reverse := by
    simp only [delCards, copy, Option.getD_some, hnil, List.length_nil, gt_iff_lt,
      lt_irrefl, if_false]
  rw [hdel]
  refine List.perm_append_comm.trans (((List.reverse_perm _).append_right b).trans ?_)
  exact hperm.trans (List.reverse_perm a)

end DelCards

section Hand

theorem length_sortRows (cards : List Card) : (sortRows cards).length = min cards.length 13 := by
  simp only [sortRows, List.length_append, Lua.length_tableSort, List.length_take, List.length_drop]
  omega

theorem mem_of_mem_sortRows {cards : List Card} {c : Card} (hc : c ∈ sortRows cards) :
    c ∈ cards := by
  simp only [sortRows, List.mem_append, Lua.mem_tableSort] at hc
  rcases hc with (hc | hc) | hc
  · exact List.mem_of_mem_take hc
  · exact List.mem_of_mem_drop (List.mem_of_mem_take hc)
  · exact List.mem_of_mem_drop (List.mem_of_mem_take hc)

theorem decoded_bare {arr : List Int} {c : Card} (hc : c ∈ cardsDecode arr) :
    c.suit = none ∧ c.old = none := by
  obtain ⟨code, -, rfl⟩ := List.mem_map.mp hc
  split_ifs <;> exact ⟨rfl, rfl⟩

theorem hand_bare {data : ChoiceMsg} {hand : List Card} (hhand : data.hand = some hand) :
    ∀ c ∈ hand, c.suit = none ∧ c.old = none := by
  obtain ⟨arr, -, rfl⟩ := Option.map_eq_some_iff.mp hhand
  exact fun c hc => decoded_bare (mem_of_mem_sortRows hc)

theorem length_hand {data : ChoiceMsg} {hand : List Card} (hhand : data.hand = some hand) :
    hand.length = min (data.arr.getD []).length 13 := by
  obtain ⟨arr, harr, rfl⟩ := Option.map_eq_some_iff.mp hhand
  rw [length_sortRows, harr]
  simp [cardsDecode]

theorem exists_hand_of_typesPass {data : ChoiceMsg}
    (htypes : checkPaiType data.hand data.ctype = .ok true) : ∃ hand, data.hand = some hand := by
  obtain ⟨types, -, htypes⟩ := Lua.bind_eq_ok.mp htypes
  obtain ⟨hand, hhand, -⟩ := Lua.bind_eq_ok.mp htypes
  cases h : data.hand with
  | none => simp [h] at hhand
  | some hand' => exact ⟨hand', rfl⟩

end Hand

end SdyServer.Daboluo
