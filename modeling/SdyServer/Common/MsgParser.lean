import SdyServer.Lib.LongestMatch

/-!
# The word filter

The words are put into a tree of tables by their bytes. The last byte of a word leads to `true`, or
to a table with `isTail` where the word goes on as another one, and the one becomes the other in
whichever order the words come in. From each position of a text the tree is followed as far as it
goes.
-/

namespace SdyServer.MsgParser

open LongestMatch

section Tree

/-- What a table of the tree holds for a byte: nil, `true`, or a table. -/
inductive Node where
  | absent
  | leaf
  | table (isTail : Bool) (child : UInt8 → Node)

/-- A table without fields. -/
def noChild : UInt8 → Node := fun _ => .absent

/-- `_byte2Tree`: what the field of the byte becomes. -/
def byteToTree (node : Node) (tail : Bool) : Node :=
  if tail then
    match node with
    | .table _ child => .table true child
    | .absent => .leaf
    | .leaf => .leaf
  else
    match node with
    | .leaf => .table true noChild
    | .absent => .table false noChild
    | .table isTail child => .table isTail child

/-- `_word2Tree`, on the fields of the table that the word goes through next. -/
def wordToTree (root : UInt8 → Node) : List UInt8 → UInt8 → Node
  | [] => root
  | ch :: rest =>
      match byteToTree (root ch) rest.isEmpty with
      | .table isTail child => Function.update root ch (.table isTail (wordToTree child rest))
      | .leaf => Function.update root ch .leaf
      | .absent => Function.update root ch .absent

/-- The tree after `MsgParser:init`. -/
def init (words : List (List UInt8)) : UInt8 → Node := words.foldl wordToTree noChild

/-- `_detect`. The answer `none` is false. -/
def detect (parent : UInt8 → Node) : List UInt8 → Nat → Option Nat
  | [], _ => none
  | ch :: rest, idx =>
      match parent ch with
      | .absent => none
      | .table isTail child =>
          if 0 < rest.length then
            if isTail then (detect child rest (idx + 1)).or (some idx) else detect child
              rest (idx + 1)
          else if isTail then some idx
          else none
      | .leaf => some idx

/-- The loop of `MsgParser:hasFilterStr`, on the text from position `i` on. -/
def hasFilterFrom (tree : UInt8 → Node) : List UInt8 → Nat → Bool
  | [], i => (detect tree [] i).isSome
  | ch :: rest, i =>
      if (detect tree (ch :: rest) i).isSome then true
      else if 0 < rest.length then hasFilterFrom tree rest (i + 1)
      else false

/-- `MsgParser:hasFilterStr`. -/
def hasFilterStr (tree : UInt8 → Node) (s : List UInt8) : Bool := hasFilterFrom tree s 1

end Tree

section Words

variable {root child : UInt8 → Node} {node : Node} {ch : UInt8} {word rest s : List UInt8}

/-- The word leads through the node to its end. -/
def Node.Holds : Node → List UInt8 → Prop
  | .absent, _ => False
  | .leaf, word => word = []
  | .table isTail _, [] => isTail = true
  | .table _ child, ch :: word => (child ch).Holds word

/-- The words of a tree. -/
def words (root : UInt8 → Node) : Language UInt8 := {word | (Node.table false root).Holds word}

theorem cons_mem_words : ch :: word ∈ words root ↔ (root ch).Holds word := Iff.rfl

theorem nil_notMem_words : [] ∉ words root := Bool.false_ne_true

theorem notMem_words_noChild : word ∉ words noChild := by
  cases word with
  | nil => exact nil_notMem_words
  | cons ch word => exact fun h => h

/-- A field that holds one word more puts one word more into the tree. -/
theorem mem_words_update {w : List UInt8}
    (hnode : ∀ rest, node.Holds rest ↔ (root ch).Holds rest ∨ rest = word) :
    w ∈ words (Function.update root ch node) ↔ w ∈ words root ∨ w = ch :: word := by
  cases w with
  | nil =>
      refine iff_of_false nil_notMem_words ?_
      rintro (h | h)
      · exact nil_notMem_words h
      · cases h
  | cons first rest =>
      rw [cons_mem_words, cons_mem_words, List.cons.injEq]
      by_cases hfirst : first = ch
      · subst hfirst
        rw [Function.update_self, hnode rest, and_iff_right rfl]
      · rw [Function.update_of_ne hfirst]
        exact (or_iff_left fun h => hfirst h.1).symm

/-- The last byte of a word ends it, whatever the field was. -/
theorem holds_byteToTree_tail : (byteToTree node true).Holds word ↔ node.Holds word ∨
    word = [] := by
  cases node with
  | absent => exact (or_iff_right fun h => h).symm
  | leaf => exact (or_self_iff).symm
  | table isTail child =>
      cases word with
      | nil => exact iff_of_true rfl (.inr rfl)
      | cons ch word => exact (or_iff_left (List.cons_ne_nil ch word)).symm

/-- Another byte leads to a table that holds what the field held. -/
theorem byteToTree_table (node : Node) :
    ∃ isTail child, byteToTree node false = .table isTail child ∧
    ∀ word, (Node.table isTail child).Holds word ↔ node.Holds word := by
  cases node with
  | absent =>
      refine ⟨false, noChild, rfl, fun word => ?_⟩
      exact iff_of_false notMem_words_noChild fun h => h
  | leaf =>
      refine ⟨true, noChild, rfl, fun word => ?_⟩
      cases word with
      | nil => exact iff_of_true rfl rfl
      | cons ch word => exact iff_of_false (fun h => h) (List.cons_ne_nil ch word)
  | table isTail child => exact ⟨isTail, child, rfl, fun word => Iff.rfl⟩

/-- **A word that is put in is added**, and no other. -/
theorem mem_words_wordToTree (hword : word ≠ []) {w : List UInt8} :
    w ∈ words (wordToTree root word) ↔ w ∈ words root ∨ w = word := by
  induction word generalizing root w with
  | nil => exact absurd rfl hword
  | cons ch rest ih =>
      cases rest with
      | nil =>
          have hlast : wordToTree root [ch] = Function.update root ch
              (byteToTree (root ch) true) := by
            rw [wordToTree, List.isEmpty_nil]
            cases byteToTree (root ch) true <;> rfl
          rw [hlast]
          exact mem_words_update fun rest => holds_byteToTree_tail
      | cons next rest =>
          obtain ⟨isTail, child, htable, hholds⟩ := byteToTree_table (root ch)
          have hstep : wordToTree root (ch :: next :: rest) =
              Function.update root ch (.table isTail (wordToTree child (next :: rest))) := by
            rw [wordToTree, List.isEmpty_cons, htable]
          rw [hstep]
          refine mem_words_update fun w' => ?_
          rw [← hholds w']
          cases w' with
          | nil => exact (or_iff_left fun h => by cases h).symm
          | cons first w' => exact @ih child (List.cons_ne_nil next rest) (first :: w')

/-- The words of the tree are those that were put in, in any order. -/
theorem mem_words_init (list : List (List UInt8)) {w : List UInt8} (hw : w ≠ []) :
    w ∈ words (init list) ↔ w ∈ list := by
  have hfold : ∀ root, w ∈ words (list.foldl wordToTree root) ↔ w ∈ words root ∨ w ∈ list := by
    induction list with
    | nil => exact fun root => (or_iff_left List.not_mem_nil).symm
    | cons word list ih =>
        intro root
        rw [List.foldl_cons, ih, List.mem_cons]
        rcases eq_or_ne word [] with rfl | hword
        · rw [wordToTree, or_iff_right hw]
        · rw [mem_words_wordToTree hword, or_assoc]
  rw [init, hfold]
  exact or_iff_right notMem_words_noChild

end Words

section Detect

/-- **Detection finds the longest word of the tree.** -/
theorem detect_longest (parent : UInt8 → Node) (word : List UInt8) (idx : Nat) :
    ∃ found, IsLongest (words parent) word found ∧
      detect parent word idx = found.map fun n => idx + n - 1 := by
  induction word generalizing parent idx with
  | nil => exact ⟨none, isLongest_nil, rfl⟩
  | cons ch rest ih =>
      have hquotient : ∀ w, w ∈ (words parent).leftQuotient [ch] ↔ (parent ch).Holds w :=
        fun w => cons_mem_words
      cases hchild : parent ch with
      | absent =>
          have hends : false = true ↔ [ch] ∈ words parent := by
            rw [cons_mem_words, hchild]
            exact iff_of_false Bool.false_ne_true fun h => h
          have hbehind : IsLongest ((words parent).leftQuotient [ch]) rest none :=
            isLongest_none fun w hw => by
              rw [hquotient, hchild] at hw
              exact hw.elim
          refine ⟨_, hbehind.cons hends, ?_⟩
          rw [detect, hchild]
          rfl
      | leaf =>
          have hends : true = true ↔ [ch] ∈ words parent := by
            rw [cons_mem_words, hchild]
            exact iff_of_true rfl rfl
          have hbehind : IsLongest ((words parent).leftQuotient [ch]) rest none :=
            isLongest_none fun w hw => by
              rw [hquotient, hchild] at hw
              exact hw
          refine ⟨_, hbehind.cons hends, ?_⟩
          rw [detect, hchild]
          rfl
      | table isTail child =>
          obtain ⟨found, hfound, hdetect⟩ := ih child (idx + 1)
          have hends : isTail = true ↔ [ch] ∈ words parent := by
            rw [cons_mem_words, hchild]
            exact Iff.rfl
          have hbehind : IsLongest ((words parent).leftQuotient [ch]) rest found := by
            refine hfound.congr fun w hw => ?_
            rw [hquotient, hchild]
            cases w with
            | nil => exact absurd rfl hw
            | cons first w => exact Iff.rfl
          refine ⟨_, hbehind.cons hends, ?_⟩
          rw [detect, hchild]
          dsimp only
          cases rest with
          | nil =>
              obtain rfl : found = none := Option.map_eq_none_iff.1 hdetect.symm
              cases isTail <;> rfl
          | cons next rest =>
              have hlength : 0 < (next :: rest).length := Nat.succ_pos _
              rw [if_pos hlength, hdetect]
              cases found with
              | none => cases isTail <;> rfl
              | some n =>
                  have hidx : idx + 1 + n - 1 = idx + (n + 1) - 1 := by omega
                  cases isTail
                  · exact congrArg some hidx
                  · exact congrArg some hidx

/-- The loop finds a word at some position. -/
theorem hasFilterFrom_iff (tree : UInt8 → Node) (s : List UInt8) (i : Nat) :
    hasFilterFrom tree s i = true ↔ ∃ w ∈ words tree, w ≠ [] ∧ w <:+: s := by
  have hdetect : ∀ s i, (detect tree s i).isSome = true ↔ ∃ w ∈ words tree, w ≠ [] ∧ w <+: s := by
    intro s i
    obtain ⟨found, hfound, hdetect⟩ := detect_longest tree s i
    rw [hdetect, Option.isSome_map, hfound.isSome_iff]
  induction s generalizing i with
  | nil =>
      rw [hasFilterFrom, hdetect]
      simp only [List.prefix_nil, List.infix_nil]
  | cons ch rest ih =>
      have hcons : (∃ w ∈ words tree, w ≠ [] ∧ w <:+: ch :: rest) ↔
          (∃ w ∈ words tree, w ≠ [] ∧ w <+: ch :: rest) ∨ ∃ w ∈ words tree, w ≠ [] ∧
              w <:+: rest := by
        constructor
        · rintro ⟨w, hw, hne, hin⟩
          rcases List.infix_cons_iff.1 hin with hpre | hin
          · exact .inl ⟨w, hw, hne, hpre⟩
          · exact .inr ⟨w, hw, hne, hin⟩
        · rintro (⟨w, hw, hne, hpre⟩ | ⟨w, hw, hne, hin⟩)
          · exact ⟨w, hw, hne, List.infix_cons_iff.2 (.inl hpre)⟩
          · exact ⟨w, hw, hne, List.infix_cons_iff.2 (.inr hin)⟩
      rw [hasFilterFrom, hcons]
      by_cases hfound : (detect tree (ch :: rest) i).isSome
      · rw [if_pos hfound]
        exact iff_of_true rfl (.inl ((hdetect _ i).1 hfound))
      · rw [if_neg hfound, or_iff_right fun h => hfound ((hdetect _ i).2 h)]
        by_cases hrest : 0 < rest.length
        · rw [if_pos hrest]
          exact ih (i + 1)
        · rw [if_neg hrest]
          obtain rfl : rest = [] := List.length_eq_zero_iff.1 (by omega)
          refine iff_of_false Bool.false_ne_true ?_
          rintro ⟨w, -, hne, hin⟩
          exact hne (List.infix_nil.1 hin)

theorem detect_init (list : List (List UInt8)) (s : List UInt8) (idx : Nat) :
    ∃ found, IsLongest ({w | w ∈ list} : Language UInt8) s found ∧
      detect (init list) s idx = found.map fun n => idx + n - 1 := by
  obtain ⟨found, hfound, hdetect⟩ := detect_longest (init list) s idx
  exact ⟨found, hfound.congr fun w hw => mem_words_init list hw, hdetect⟩

/-- **The filter is exact.** A text has a filtered word in it exactly if some word is a part of it,
and detection at a position ends where the longest word that starts there ends. -/
theorem filter_exact (list : List (List UInt8)) (s : List UInt8) :
    (hasFilterStr (init list) s = true ↔ ∃ w ∈ list, w ≠ [] ∧ w <:+: s) ∧
      ∀ i, (∀ idx, detect (init list) (s.drop i) (i + 1) = some idx ↔
          ∃ w ∈ list, w ≠ [] ∧ w <+: s.drop i ∧ i + w.length = idx ∧
            ∀ w' ∈ list, w' <+: s.drop i → w'.length ≤ w.length) ∧
        (detect (init list) (s.drop i) (i + 1) = none ↔ ∀ w ∈ list, w ≠ [] → ¬w <+: s.drop i) := by
  constructor
  · rw [hasFilterStr, hasFilterFrom_iff]
    refine exists_congr fun w => ?_
    constructor
    · rintro ⟨hw, hne, hin⟩
      exact ⟨(mem_words_init list hne).1 hw, hne, hin⟩
    · rintro ⟨hw, hne, hin⟩
      exact ⟨(mem_words_init list hne).2 hw, hne, hin⟩
  · intro i
    obtain ⟨found, hfound, hdetect⟩ := detect_init list (s.drop i) (i + 1)
    rw [hdetect]
    constructor
    · intro idx
      rw [Option.map_eq_some_iff]
      constructor
      · rintro ⟨n, hn, hidx⟩
        obtain ⟨w, hw, hne, hpre, hlength, hlongest⟩ := hfound.eq_some_iff.1 hn
        exact ⟨w, hw, hne, hpre, by omega, hlongest⟩
      · rintro ⟨w, hw, hne, hpre, hidx, hlongest⟩
        exact ⟨w.length, hfound.eq_some_iff.2 ⟨w, hw, hne, hpre, rfl, hlongest⟩, by omega⟩
    · rw [Option.map_eq_none_iff, ← Option.not_isSome_iff_eq_none, hfound.isSome_iff]
      constructor
      · exact fun h w hw hne hpre => h ⟨w, hw, hne, hpre⟩
      · rintro h ⟨w, hw, hne, hpre⟩
        exact h w hw hne hpre

end Detect

end SdyServer.MsgParser
