import SdyServer.Common.MsgParser

/-!
# Masked texts

`getString` goes through a text and writes stars over the longest word at each position. It is read
from the text that it rewrites, but always behind the last star. What comes out has no word in it.
-/

namespace SdyServer.MsgParser

open LongestMatch

section Code

variable {tree : UInt8 → Node} {word : List UInt8} {idx i : Nat}

def maskWord : UInt8 := 42

theorem le_of_detect (h : detect tree word i = some idx) : i ≤ idx := by
  obtain ⟨found, hfound, hdetect⟩ := detect_longest tree word i
  rw [h, eq_comm, Option.map_eq_some_iff] at hdetect
  obtain ⟨n, rfl, rfl⟩ := hdetect
  have hpos := (hfound.1 n rfl).1.1
  omega

/-- The loop of `MsgParser:getString`; `len` is the length that the text had at first. -/
def getStringFrom (tree : UInt8 → Node) (len : Nat) (s : List UInt8) (i : Nat) : List UInt8 :=
  match hword : detect tree (s.drop (i - 1)) i with
  | some idx =>
      let s := s.take (i - 1) ++ List.replicate (idx - i + 1) maskWord ++ s.drop idx
      if idx + 1 > len then s else getStringFrom tree len s (idx + 1)
  | none => if i + 1 > len then s else getStringFrom tree len s (i + 1)
termination_by len + 1 - i
decreasing_by
  · have hle := le_of_detect hword
    omega
  · omega

/-- `MsgParser:getString`. -/
def getString (tree : UInt8 → Node) (s : List UInt8) : List UInt8 := getStringFrom tree s.length s 1

end Code

section Masking

variable {list : List (List UInt8)} {s r : List UInt8} {ms : List (Nat × Nat)} {i len : Nat}

/-- The text with stars in the place of the matches. -/
structure Masks (ms : List (Nat × Nat)) (s r : List UInt8) : Prop where
  length : r.length = s.length
  covered : ∀ j, Covered ms j → r[j]? = s[j]?.map fun _ => maskWord
  other : ∀ j, ¬Covered ms j → r[j]? = s[j]?

theorem masks_nil (s : List UInt8) : Masks [] s s := by
  refine ⟨rfl, fun j hj => ?_, fun _ _ => rfl⟩
  obtain ⟨m, hm, -⟩ := hj
  exact absurd hm List.not_mem_nil

/-- Stars over one match. -/
def star (s : List UInt8) (p n : Nat) : List UInt8 :=
  s.take p ++ List.replicate n maskWord ++ s.drop (p + n)

theorem length_star {p n : Nat} (hle : p + n ≤ s.length) : (star s p n).length = s.length := by
  unfold star
  rw [List.length_append, List.length_append, List.length_take, List.length_replicate,
    List.length_drop]
  omega

theorem getElem?_star {p n : Nat} (hle : p + n ≤ s.length) (j : Nat) :
    (star s p n)[j]? = if p ≤ j ∧ j < p + n then some maskWord else s[j]? := by
  have htake : (s.take p).length = p := List.length_take_of_le (by omega)
  unfold star
  rcases Nat.lt_or_ge j p with hbefore | hfrom
  · rw [if_neg (by omega), List.append_assoc, List.getElem?_append_left (by omega),
      List.getElem?_take_of_lt hbefore]
  · rw [List.append_assoc, List.getElem?_append_right (by omega), htake]
    rcases Nat.lt_or_ge j (p + n) with hin | hbehind
    · have hlt : j - p < (List.replicate n maskWord).length := by
        rw [List.length_replicate]
        omega
      rw [if_pos ⟨hfrom, hin⟩, List.getElem?_append_left hlt,
        List.getElem?_replicate_of_lt (by omega)]
    · have hle' : (List.replicate n maskWord).length ≤ j - p := by
        rw [List.length_replicate]
        omega
      rw [if_neg (by omega), List.getElem?_append_right hle', List.length_replicate,
        List.getElem?_drop]
      congr 1
      omega

theorem drop_star {p n : Nat} (hle : p + n ≤ s.length) {q : Nat} (hq : p + n ≤ q) :
    (star s p n).drop q = s.drop q := by
  refine List.ext_getElem? fun j => ?_
  rw [List.getElem?_drop, List.getElem?_drop, getElem?_star hle, if_neg (by omega)]

/-- Stars over a match, and then over the matches behind it. -/
theorem Masks.cons {p n : Nat} (hle : p + n ≤ s.length) (hbehind : ∀ j, Covered ms j → p + n ≤ j)
    (h : Masks ms (star s p n) r) : Masks ((p, n) :: ms) s r := by
  refine ⟨h.length.trans (length_star hle), fun j hj => ?_, fun j hj => ?_⟩
  · rcases covered_cons.1 hj with hin | hcovered
    · have hnot : ¬Covered ms j := fun hcovered => absurd (hbehind j hcovered) (by omega)
      have hs : s[j]? = some s[j] := List.getElem?_eq_getElem (by omega)
      rw [h.other j hnot, getElem?_star hle, if_pos hin, hs, Option.map_some]
    · have hfar := hbehind j hcovered
      rw [h.covered j hcovered, getElem?_star hle, if_neg (by omega)]
  · rw [covered_cons, not_or] at hj
    rw [h.other j hj.2, getElem?_star hle, if_neg hj.1]

end Masking

section Loop

variable {tree : UInt8 → Node} {list : List (List UInt8)} {s : List UInt8} {i idx len : Nat}

theorem getStringFrom_some (hword : detect tree (s.drop (i - 1)) i = some idx) :
    getStringFrom tree len s i =
      if idx + 1 > len then s.take (i - 1) ++ List.replicate (idx - i + 1) maskWord ++ s.drop idx
      else getStringFrom tree len
      (s.take (i - 1) ++ List.replicate (idx - i + 1) maskWord ++ s.drop idx)
        (idx + 1) := by
  rw [getStringFrom]
  split
  · next idx' hidx =>
      obtain rfl : idx = idx' := Option.some.inj (hword.symm.trans hidx)
      rfl
  · next hnone =>
      rw [hword] at hnone
      cases hnone

theorem getStringFrom_none (hword : detect tree (s.drop (i - 1)) i = none) :
    getStringFrom tree len s i = if i + 1 > len then s else getStringFrom tree len s (i + 1) := by
  rw [getStringFrom]
  split
  · next idx hidx =>
      rw [hword] at hidx
      cases hidx
  · rfl

/-- No match starts at the end of the text. -/
theorem lengths_of_end {L : Language UInt8} {p : Nat} (hp : s.length ≤ p) :
    lengths L (s.drop p) = ∅ := by
  rw [List.drop_of_length_le hp]
  exact lengths_nil

/-- **The loop masks the leftmost and longest matches** from its position on. -/
theorem getStringFrom_masks (hlen : s.length = len) (hpos : 0 < i) :
    ∃ ms, LeftmostLongest ({w | w ∈ list} : Language UInt8) s (i - 1) ms ∧
      Masks ms s (getStringFrom (init list) len s i) := by
  induction hn : len + 1 - i using Nat.strong_induction_on generalizing s i with
  | _ n ih =>
      obtain ⟨found, hfound, hdetect⟩ := detect_init list (s.drop (i - 1)) i
      cases found with
      | none =>
          have hempty := hfound.2 rfl
          rw [getStringFrom_none hdetect]
          split_ifs with hend
          · refine ⟨[], .none fun p hp => ?_, masks_nil s⟩
            rcases Nat.eq_or_lt_of_le hp with rfl | hlater
            · exact hempty
            · exact lengths_of_end (by omega)
          · obtain ⟨ms, hms, hmasks⟩ :=
              @ih (len + 1 - (i + 1)) (by omega) s (i + 1) hlen (Nat.succ_pos i) rfl
            refine ⟨ms, LeftmostLongest.skip hempty ?_, hmasks⟩
            rwa [Nat.sub_add_cancel hpos]
      | some m =>
          have hword : detect (init list) (s.drop (i - 1)) i = some (i + m - 1) := hdetect
          have hlongest := hfound.1 m rfl
          obtain ⟨hm, hle, -⟩ := hlongest.1
          rw [List.length_drop] at hle
          have hfits : i - 1 + m ≤ s.length := by omega
          have hidx : i + m - 1 - i + 1 = m := by omega
          have hbehind : i + m - 1 = i - 1 + m := by omega
          have hstar : s.take (i - 1) ++ List.replicate (i + m - 1 - i + 1) maskWord ++
              s.drop (i + m - 1) =
              star s (i - 1) m := by
            rw [hidx, hbehind]
            rfl
          have hnext : ∀ q, i - 1 ≤ q → q < i - 1 →
              lengths ({w | w ∈ list} : Language UInt8) (s.drop q) = ∅ :=
            fun q hq hlt => absurd hlt (by omega)
          rw [getStringFrom_some hword, hstar]
          split_ifs with hend
          · refine ⟨[(i - 1, m)],
              .next le_rfl hnext hlongest (.none fun p hp => lengths_of_end (by omega)), ?_⟩
            exact Masks.cons hfits (fun j hj => absurd hj (by simp [Covered])) (masks_nil _)
          · obtain ⟨ms, hms, hmasks⟩ :=
              @ih (len + 1 - (i + m - 1 + 1)) (by omega) (star s (i - 1) m)
              (i + m - 1 + 1) ((length_star hfits).trans hlen) (Nat.succ_pos _) rfl
            rw [Nat.add_sub_cancel, hbehind] at hms
            exact ⟨(i - 1, m) :: ms,
              .next le_rfl hnext hlongest (hms.congr fun p hp => drop_star hfits hp),
              hmasks.cons hfits fun j hj => hms.le_of_covered hj⟩

theorem getString_masks (list : List (List UInt8)) (s : List UInt8) :
    ∃ ms, LeftmostLongest ({w | w ∈ list} : Language UInt8) s 0 ms ∧
    Masks ms s (getString (init list) s) :=
  getStringFrom_masks rfl Nat.one_pos

end Loop

section Clean

variable {list : List (List UInt8)} {s r : List UInt8} {ms : List (Nat × Nat)}

/-- A part of the masked text without stars is a part of the text, of which nothing is covered. -/
theorem Masks.prefix_of_infix {w : List UInt8} {p : Nat} (h : Masks ms s r) (hw : w ≠ [])
    (hstar : maskWord ∉ w) (hin : w <+: r.drop p) : ¬Covered ms p ∧ w <+: s.drop p := by
  obtain ⟨rest, hrest⟩ := hin
  have hat : ∀ k, k < w.length → r[p + k]? = w[k]? := by
    intro k hk
    rw [← List.getElem?_drop, ← hrest, List.getElem?_append_left hk]
  have hnot : ∀ k, k < w.length → ¬Covered ms (p + k) := by
    intro k hk hcovered
    have hread := h.covered _ hcovered
    rw [hat k hk, List.getElem?_eq_getElem hk] at hread
    obtain ⟨b, -, hb⟩ := Option.map_eq_some_iff.1 hread.symm
    exact hstar (hb ▸ List.getElem_mem hk)
  refine ⟨hnot 0 (List.length_pos_of_ne_nil hw), ?_⟩
  rw [List.prefix_iff_eq_take]
  refine List.ext_getElem? fun k => ?_
  rcases Nat.lt_or_ge k w.length with hk | hk
  · rw [List.getElem?_take_of_lt hk, List.getElem?_drop, ← h.other _ (hnot k hk), hat k hk]
  · rw [List.getElem?_eq_none hk, List.getElem?_eq_none]
    exact (List.length_take_le _ _).trans hk

/-- No word is left. -/
theorem Masks.no_word (h : Masks ms s r)
    (hms : LeftmostLongest ({w | w ∈ list} : Language UInt8) s 0 ms)
    (hstar : ∀ w ∈ list, maskWord ∉ w) (p : Nat) :
    lengths ({w | w ∈ list} : Language UInt8) (r.drop p) = ∅ := by
  refine Set.eq_empty_of_forall_notMem fun n hn => ?_
  obtain ⟨w, hw, hne, hpre, rfl⟩ := mem_lengths_iff.1 hn
  obtain ⟨hnot, hpre'⟩ := h.prefix_of_infix hne (hstar w hw) hpre
  have hempty := hms.lengths_eq_empty (Nat.zero_le p) hnot
  have hmem : w.length ∈ lengths ({w | w ∈ list} : Language UInt8) (s.drop p) :=
    mem_lengths_iff.2 ⟨w, hw, hne, hpre', rfl⟩
  rw [hempty] at hmem
  exact hmem

/-- **Masking is clean and minimal.** Stars stand exactly in the leftmost and longest words, none of
which overlap; no word is left, and a second masking changes nothing. -/
theorem getString_clean (list : List (List UInt8)) (hstar : ∀ w ∈ list, maskWord ∉ w)
    (s : List UInt8) :
    (getString (init list) s).length = s.length ∧
      (∃ ms, LeftmostLongest ({w | w ∈ list} : Language UInt8) s 0 ms ∧
        ∀ j, j < s.length → (Covered ms j → (getString (init list) s)[j]? = some maskWord) ∧
          (¬Covered ms j → (getString (init list) s)[j]? = s[j]?)) ∧
        hasFilterStr (init list) (getString (init list) s) = false ∧
          getString (init list) (getString (init list) s) = getString (init list) s := by
  obtain ⟨ms, hms, hmasks⟩ := getString_masks list s
  have hclean := hmasks.no_word hms hstar
  refine ⟨hmasks.length, ⟨ms, hms, fun j hj => ⟨fun hcovered => ?_, hmasks.other j⟩⟩, ?_, ?_⟩
  · rw [hmasks.covered j hcovered, List.getElem?_eq_getElem hj, Option.map_some]
  · rw [← Bool.not_eq_true, hasFilterStr, hasFilterFrom_iff]
    rintro ⟨w, hw, hne, pre, post, hin⟩
    have hmem : w.length ∈ lengths ({w | w ∈ list} : Language UInt8)
        ((getString (init list) s).drop pre.length) := by
      refine mem_lengths_iff.2 ⟨w, (mem_words_init list hne).1 hw, hne, ⟨post, ?_⟩, rfl⟩
      rw [← hin, List.append_assoc, List.drop_left]
    rw [hclean] at hmem
    exact hmem
  · obtain ⟨ms', hms', hmasks'⟩ := getString_masks list (getString (init list) s)
    obtain rfl := hms'.eq_nil hclean
    refine List.ext_getElem? fun j => hmasks'.other j fun hcovered => ?_
    obtain ⟨m, hm, -⟩ := hcovered
    exact List.not_mem_nil hm

/-- The words `ab` and `abc`, and a text in which both are found. -/
theorem getString_clean_overlap :
    hasFilterStr (init [[97, 98], [97, 98, 99]])
    (getString (init [[97, 98], [97, 98, 99]]) [97, 98, 99, 97, 98]) =
      false :=
  (getString_clean [[97, 98], [97, 98, 99]] (by decide) [97, 98, 99, 97, 98]).2.2.1

end Clean

end SdyServer.MsgParser
