import Mathlib.Data.List.Perm.Basic
import Mathlib.Algebra.Order.Ring.Nat
import SdyServer.Skynet.Timer

/-!
# Every timer once, at its tick

At each tick the timer deals out one list at most. What is in the others stays where it would be
linked now, so the list of the present tick holds what is due at this tick and nothing else.
-/

namespace SdyServer.SkynetTimer

section Slots

theorem or_mask_eq_iff (a b k : Nat) : a ||| (2 ^ k - 1) = b ||| (2 ^ k - 1) ↔
    a / 2 ^ k = b / 2 ^ k := by
  constructor
  · intro h
    refine Nat.eq_of_testBit_eq fun i => ?_
    have hi := congrArg (·.testBit (k + i)) h
    have hout : ¬k + i < k := by omega
    simpa [Nat.testBit_div_two_pow, Nat.testBit_two_pow_sub_one, hout, Nat.add_comm i k] using hi
  · intro h
    refine Nat.eq_of_testBit_eq fun i => ?_
    by_cases hi : i < k
    · simp [Nat.testBit_two_pow_sub_one, hi]
    · have hbit := congrArg (·.testBit (i - k)) h
      have hsum : k + (i - k) = i := by omega
      simp only [Nat.testBit_div_two_pow, Nat.add_comm (i - k) k, hsum] at hbit
      simp [Nat.testBit_two_pow_sub_one, hi, hbit]

/-- Where a node is linked, by what its time shares with the present one. -/
theorem slotOf_eq (time currentTime : Nat) :
    slotOf time currentTime =
      if time / 256 = currentTime / 256 then .near (time % 256)
      else if time / 16384 = currentTime / 16384 then .t 0 (time / 256 % 64)
      else if time / 1048576 = currentTime / 1048576 then .t 1 (time / 16384 % 64)
      else if time / 67108864 = currentTime / 67108864 then .t 2 (time / 1048576 % 64)
      else .t 3 (time / 67108864 % 64) := by
  have hnear : time ||| 255 = currentTime ||| 255 ↔ time / 256 = currentTime / 256 :=
    or_mask_eq_iff _ _ 8
  have hzero : time ||| 16383 = currentTime ||| 16383 ↔ time / 16384 = currentTime / 16384 :=
    or_mask_eq_iff _ _ 14
  have hone : time ||| 1048575 = currentTime ||| 1048575 ↔ time / 1048576 = currentTime / 1048576 :=
    or_mask_eq_iff _ _ 20
  have htwo : time ||| 67108863 = currentTime ||| 67108863 ↔ time / 67108864 =
      currentTime / 67108864 :=
    or_mask_eq_iff _ _ 26
  have hmask : ∀ x : Nat, x &&& 63 = x % 64 := fun x => Nat.and_two_pow_sub_one_eq_mod x 6
  have hbyte : ∀ x : Nat, x &&& 255 = x % 256 := fun x => Nat.and_two_pow_sub_one_eq_mod x 8
  have hunfold : slotOf time currentTime =
      if time ||| 255 = currentTime ||| 255 then .near (time &&& 255)
      else
        let i :=
          if time ||| 16383 = currentTime ||| 16383 then 0
          else if time ||| 1048575 = currentTime ||| 1048575 then 1
          else if time ||| 67108863 = currentTime ||| 67108863 then 2
          else 3
        .t i ((time >>> (8 + i * 6)) &&& 63) := rfl
  rw [hunfold]
  simp only [hnear, hzero, hone, htwo, hmask, hbyte, Nat.shiftRight_eq_div_pow]
  split_ifs <;> rfl

/-- The list that `timer_shift` deals out when the time becomes `ct`. -/
def opened (ct : Nat) : Option Slot :=
  if ct = 0 then some (.t 3 0)
  else if ct % 256 ≠ 0 then none
  else if ct / 256 % 64 ≠ 0 then some (.t 0 (ct / 256 % 64))
  else if ct / 16384 % 64 ≠ 0 then some (.t 1 (ct / 16384 % 64))
  else if ct / 1048576 % 64 ≠ 0 then some (.t 2 (ct / 1048576 % 64))
  else some (.t 3 (ct / 67108864 % 64))

variable {ct r : Nat}

/-- **One tick.** What is not in the list that is dealt out stays where it would be linked. -/
theorem slotOf_tick (hct : ct < word) (hpos : 0 < r) (hr : r ≤ 2147483648)
    (hkept : opened ((ct + 1) % word) ≠ some (slotOf ((ct + r) % word) ct)) :
    slotOf ((ct + r) % word) ((ct + 1) % word) = slotOf ((ct + r) % word) ct := by
  have hct : ct < 4294967296 := hct
  change opened ((ct + 1) % 4294967296) ≠ some (slotOf ((ct + r) % 4294967296) ct) at hkept
  change slotOf ((ct + r) % 4294967296) ((ct + 1) % 4294967296) = slotOf ((ct + r) % 4294967296) ct
  generalize he : (ct + r) % 4294967296 = e at *
  generalize hct' : (ct + 1) % 4294967296 = ct' at *
  rw [slotOf_eq e ct] at hkept ⊢
  rw [slotOf_eq e ct']
  unfold opened at hkept
  by_cases hnear : ct' % 256 = 0
  · have hsplit : e / 256 ≠ ct / 256 := by omega
    rw [if_neg hsplit] at hkept ⊢
    by_cases hzero : ct' / 256 % 64 = 0
    · have hsplit : e / 16384 ≠ ct / 16384 := by omega
      rw [if_neg hsplit] at hkept ⊢
      by_cases hone : ct' / 16384 % 64 = 0
      · have hsplit : e / 1048576 ≠ ct / 1048576 := by omega
        rw [if_neg hsplit] at hkept ⊢
        by_cases htwo : ct' / 1048576 % 64 = 0
        · have hsplit : e / 67108864 ≠ ct / 67108864 := by omega
          rw [if_neg hsplit] at hkept ⊢
          have hne : e / 67108864 ≠ ct' / 67108864 := by
            intro heq
            by_cases hwrap : ct' = 0
            · rw [if_pos hwrap] at hkept
              have : e / 67108864 % 64 = 0 := by omega
              rw [this] at hkept
              exact hkept rfl
            · rw [if_neg hwrap, if_neg (not_not.mpr hnear), if_neg (not_not.mpr hzero),
                if_neg (not_not.mpr hone),
                if_neg (not_not.mpr htwo), heq] at hkept
              exact hkept rfl
          rw [if_neg (by omega), if_neg (by omega), if_neg (by omega), if_neg hne]
        · have hnonzero : ct' ≠ 0 := by omega
          rw [if_neg hnonzero, if_neg (not_not.mpr hnear), if_neg (not_not.mpr hzero),
            if_neg (not_not.mpr hone),
            if_pos htwo] at hkept
          have hne : e / 1048576 ≠ ct' / 1048576 := by
            intro heq
            rw [if_pos (by omega), heq] at hkept
            exact hkept rfl
          have hsame : ct' / 67108864 = ct / 67108864 := by omega
          rw [if_neg (by omega), if_neg (by omega), if_neg hne, hsame]
      · have hnonzero : ct' ≠ 0 := by omega
        rw [if_neg hnonzero, if_neg (not_not.mpr hnear), if_neg (not_not.mpr hzero),
          if_pos hone] at hkept
        have hne : e / 16384 ≠ ct' / 16384 := by
          intro heq
          rw [if_pos (by omega), heq] at hkept
          exact hkept rfl
        have hsecond : ct' / 1048576 = ct / 1048576 := by omega
        have hthird : ct' / 67108864 = ct / 67108864 := by omega
        rw [if_neg (by omega), if_neg hne, hsecond, hthird]
    · have hnonzero : ct' ≠ 0 := by omega
      rw [if_neg hnonzero, if_neg (not_not.mpr hnear), if_pos hzero] at hkept
      have hne : e / 256 ≠ ct' / 256 := by
        intro heq
        rw [if_pos (by omega), heq] at hkept
        exact hkept rfl
      have hfirst : ct' / 16384 = ct / 16384 := by omega
      have hsecond : ct' / 1048576 = ct / 1048576 := by omega
      have hthird : ct' / 67108864 = ct / 67108864 := by omega
      rw [if_neg hne, hfirst, hsecond, hthird]
  · -- nothing is carried over
    have hnone : ct' / 256 = ct / 256 := by omega
    have hfirst : ct' / 16384 = ct / 16384 := by omega
    have hsecond : ct' / 1048576 = ct / 1048576 := by omega
    have hthird : ct' / 67108864 = ct / 67108864 := by omega
    rw [hnone, hfirst, hsecond, hthird]

/-- What would be linked to the list of the present tick is due now. -/
theorem slotOf_eq_near_iff (time currentTime : Nat) :
    slotOf time currentTime = .near (currentTime &&& timeNearMask) ↔ time = currentTime := by
  have hbyte : currentTime &&& timeNearMask = currentTime % 256 :=
    Nat.and_two_pow_sub_one_eq_mod currentTime 8
  rw [slotOf_eq, hbyte]
  constructor
  · intro h
    split_ifs at h with hnear
    rw [Slot.near.injEq] at h
    omega
  · intro h
    rw [h, if_pos rfl]

end Slots

namespace Timer

variable {T : Timer} {nodes : List TimerNode}

section Lists

/-- A list is taken out and its nodes are linked again. -/
def deal (T : Timer) (slot : Slot) : Timer := (T.lists slot).foldl addNode (T.linkClear slot)

theorem timerShift_eq (T : Timer) :
    T.timerShift = (opened ((T.time + 1) % word)).elim { T with time := (T.time + 1) % word }
      { T with time := (T.time + 1) % word }.deal := by
  have hct : (T.time + 1) % word < 4294967296 := Nat.mod_lt _ (by decide)
  unfold timerShift
  dsimp only
  generalize (T.time + 1) % word = ct at hct
  generalize ({ T with time := ct } : Timer) = T'
  have hmask : ∀ x : Nat, x &&& 63 = x % 64 := fun x => Nat.and_two_pow_sub_one_eq_mod x 6
  have hbyte : ct &&& 255 = ct % 256 := Nat.and_two_pow_sub_one_eq_mod ct 8
  have hzero : ct &&& 16383 = ct % 16384 := Nat.and_two_pow_sub_one_eq_mod ct 14
  have hone : ct &&& 1048575 = ct % 1048576 := Nat.and_two_pow_sub_one_eq_mod ct 20
  have htwo : ct &&& 67108863 = ct % 67108864 := Nat.and_two_pow_sub_one_eq_mod ct 26
  have hnear : ct >>> 8 = ct / 256 := Nat.shiftRight_eq_div_pow ct 8
  have hshift : ∀ x : Nat, x >>> 6 = x / 64 := fun x => Nat.shiftRight_eq_div_pow x 6
  have hlevel : ct / 256 / 64 = ct / 16384 := Nat.div_div_eq_div_mul ..
  have hlevel' : ct / 16384 / 64 = ct / 1048576 := Nat.div_div_eq_div_mul ..
  have hlevel'' : ct / 1048576 / 64 = ct / 67108864 := Nat.div_div_eq_div_mul ..
  have hloop : T'.shiftLoop ct 4 timeNear (ct >>> timeNearShift) 0 =
      if ct &&& 255 = 0 then
        if (ct >>> 8) &&& 63 ≠ 0 then T'.deal (.t 0 ((ct >>> 8) &&& 63))
        else if ct &&& 16383 = 0 then
          if (ct >>> 8 >>> 6) &&& 63 ≠ 0 then T'.deal (.t 1 ((ct >>> 8 >>> 6) &&& 63))
          else if ct &&& 1048575 = 0 then
            if (ct >>> 8 >>> 6 >>> 6) &&& 63 ≠ 0 then T'.deal (.t 2 ((ct >>> 8 >>> 6 >>> 6) &&& 63))
            else if ct &&& 67108863 = 0 then
              if (ct >>> 8 >>> 6 >>> 6 >>> 6) &&& 63 ≠
                0 then T'.deal (.t 3 ((ct >>> 8 >>> 6 >>> 6 >>> 6) &&& 63))
              else T'
            else T'
          else T'
        else T'
      else T' := rfl
  have hmove : T'.moveList 3 0 = T'.deal (.t 3 0) := rfl
  rw [hloop, hmove, opened]
  simp only [hmask, hbyte, hzero, hone, htwo, hnear, hshift, hlevel, hlevel', hlevel'']
  split_ifs
  all_goals first | rfl | omega

theorem lists_foldl_addNode (T : Timer) (nodes : List TimerNode) (slot : Slot) :
    (nodes.foldl addNode T).lists slot =
        T.lists slot ++ nodes.filter (fun node => slotOf node.expire T.time = slot) ∧
      (nodes.foldl addNode T).time = T.time := by
  induction nodes generalizing T with
  | nil => exact ⟨(List.append_nil _).symm, rfl⟩
  | cons node nodes ih =>
      obtain ⟨hlists, htime⟩ := ih (T.addNode node)
      refine ⟨?_, htime⟩
      rw [List.foldl_cons, hlists, List.filter_cons]
      change Function.update T.lists _ _ slot ++ nodes.filter
        (fun node => slotOf node.expire T.time = slot) = _
      by_cases hslot : slotOf node.expire T.time = slot
      · rw [if_pos (by simpa using hslot), hslot, Function.update_self, List.append_assoc,
          List.singleton_append]
      · rw [if_neg (by simpa using hslot), Function.update_of_ne (Ne.symm hslot)]

/-- The nodes are where they would be linked now. -/
def Holds (T : Timer) (nodes : List TimerNode) : Prop :=
  ∀ slot, (T.lists slot).Perm (nodes.filter fun node => slotOf node.expire T.time = slot)

theorem Holds.addNode (h : T.Holds nodes) (node : TimerNode) :
    (T.addNode node).Holds (nodes ++ [node]) := by
  intro slot
  have hlists := (lists_foldl_addNode T [node] slot).1
  rw [List.foldl_cons, List.foldl_nil] at hlists
  rw [hlists, List.filter_append]
  exact (h slot).append_right _

/-- Two filters that share nothing and together make a third. -/
theorem filter_append_filter_perm {p q r : TimerNode → Bool}
    (hdisjoint : ∀ node ∈ nodes, ¬(p node ∧ q node))
    (hunion : ∀ node ∈ nodes, r node = (p node || q node)) :
    (nodes.filter p ++ nodes.filter q).Perm (nodes.filter r) := by
  induction nodes with
  | nil => exact List.Perm.refl _
  | cons node nodes ih =>
      have htail := ih (fun node hnode => hdisjoint node (List.mem_cons_of_mem _ hnode))
        fun node hnode => hunion node (List.mem_cons_of_mem _ hnode)
      have hhead := hunion node List.mem_cons_self
      have hnot := hdisjoint node List.mem_cons_self
      cases hp : p node <;> cases hq : q node <;>
        simp only [hp, hq, Bool.or_false, Bool.or_true] at hhead
      · simpa [List.filter_cons, hp, hq, hhead] using htail
      · simp only [List.filter_cons, hp, hq, hhead, Bool.false_eq_true, if_false, if_true]
        exact List.perm_middle.trans (htail.cons node)
      · simpa [List.filter_cons, hp, hq, hhead] using htail
      · exact absurd ⟨hp, hq⟩ hnot

/-- A list that is dealt out at a new time, when the others are already right for it. -/
theorem Holds.deal {ct : Nat} {slot : Slot} (h : T.Holds nodes)
    (hkept : ∀ node ∈ nodes, slotOf node.expire T.time ≠ slot → slotOf node.expire ct =
      slotOf node.expire T.time) :
    ({ T with time := ct }.deal slot).Holds nodes := by
  intro other
  obtain ⟨hlists, htime⟩ :=
    lists_foldl_addNode ({ T with time := ct }.linkClear slot) (T.lists slot) other
  have hdealt := (h slot).filter fun node => slotOf node.expire ct = other
  rw [List.filter_filter] at hdealt
  have hstays : (({ T with time := ct } : Timer).linkClear slot).lists other =
      if other = slot then [] else T.lists other := by
    by_cases hother : other = slot
    · rw [if_pos hother, hother]
      exact Function.update_self ..
    · rw [if_neg hother]
      exact Function.update_of_ne hother _ _
  rw [Timer.deal, hlists, htime, hstays]
  change ((if other = slot then [] else T.lists other) ++
    (T.lists slot).filter fun node => slotOf node.expire ct = other).Perm
      (nodes.filter fun node => slotOf node.expire ct = other)
  refine List.Perm.trans (List.Perm.append ?_ hdealt) (filter_append_filter_perm
    (p := fun node => other ≠ slot ∧ slotOf node.expire T.time = other) ?_ ?_)
  · by_cases hother : other = slot
    · simp [hother]
    · simpa [hother] using h other
  · intro node _ hboth
    simp only [decide_eq_true_eq, Bool.and_eq_true] at hboth
    exact hboth.1.1 (hboth.1.2.symm.trans hboth.2.2)
  · intro node hnode
    rw [Bool.eq_iff_iff]
    simp only [decide_eq_true_eq, Bool.or_eq_true, Bool.and_eq_true]
    by_cases hslot : slotOf node.expire T.time = slot
    · constructor
      · exact fun heq => .inr ⟨heq, hslot⟩
      · rintro (⟨hne, heq⟩ | ⟨heq, -⟩)
        · exact absurd (heq.symm.trans hslot) hne
        · exact heq
    · rw [hkept node hnode hslot]
      constructor
      · exact fun heq => .inl ⟨fun hother => hslot (heq.trans hother), heq⟩
      · rintro (⟨-, heq⟩ | ⟨heq, -⟩)
        · exact heq
        · exact heq

/-- The nodes are due within half the range of the time. -/
def Soon (T : Timer) (nodes : List TimerNode) : Prop :=
  ∀ node ∈ nodes, ∃ r, 0 < r ∧ r ≤ 2147483648 ∧ node.expire = (T.time + r) % word

/-- **Shifting.** After a tick all nodes are again where they would be linked. -/
theorem Holds.timerShift (h : T.Holds nodes) (htime : T.time < word) (hsoon : T.Soon nodes) :
    T.timerShift.Holds nodes ∧ T.timerShift.time = (T.time + 1) % word := by
  rw [timerShift_eq]
  have hkept : ∀ node ∈ nodes, opened ((T.time + 1) % word) ≠ some (slotOf node.expire T.time) →
      slotOf node.expire ((T.time + 1) % word) = slotOf node.expire T.time := by
    intro node hnode hne
    obtain ⟨r, hpos, hr, hexpire⟩ := hsoon node hnode
    rw [hexpire] at hne ⊢
    exact slotOf_tick htime hpos hr hne
  cases hopened : opened ((T.time + 1) % word) with
  | none =>
      refine ⟨fun slot => ?_, rfl⟩
      refine (h slot).trans (List.Perm.of_eq (List.filter_congr fun node hnode => ?_))
      change decide (_ = slot) = decide (slotOf node.expire ((T.time + 1) % word) = slot)
      rw [hkept node hnode (by rw [hopened]; exact Option.some_ne_none _ |>.symm)]
  | some slot =>
      refine ⟨h.deal fun node hnode hne => hkept node hnode ?_, (lists_foldl_addNode _ _ slot).2⟩
      rw [hopened]
      exact fun heq => hne (Option.some.inj heq).symm

/-- **The present tick.** Its list holds what is due now, and without it the timer holds the
rest. -/
theorem Holds.now (h : T.Holds nodes) :
    (T.lists T.now).Perm (nodes.filter fun node => node.expire = T.time) ∧
      (T.linkClear T.now).Holds (nodes.filter fun node => node.expire ≠ T.time) := by
  have hiff : ∀ node : TimerNode, slotOf node.expire T.time = T.now ↔ node.expire = T.time :=
    fun node => slotOf_eq_near_iff node.expire T.time
  constructor
  · refine (h T.now).trans (List.Perm.of_eq (List.filter_congr fun node _ => ?_))
    rw [Bool.eq_iff_iff, decide_eq_true_eq, decide_eq_true_eq]
    exact hiff node
  · intro slot
    rw [List.filter_filter]
    change (Function.update T.lists T.now [] slot).Perm _
    by_cases hslot : slot = T.now
    · rw [hslot, Function.update_self]
      refine List.Perm.of_eq (List.filter_eq_nil_iff.mpr fun node _ hboth => ?_).symm
      simp only [Bool.and_eq_true, decide_eq_true_eq] at hboth
      exact hboth.2 ((hiff node).mp hboth.1)
    · rw [Function.update_of_ne hslot]
      refine (h slot).trans (List.Perm.of_eq (List.filter_congr fun node _ => ?_))
      rw [Bool.eq_iff_iff]
      simp only [Bool.and_eq_true, decide_eq_true_eq]
      exact ⟨fun heq => ⟨heq, fun hnow => hslot (heq.symm.trans ((hiff node).mpr hnow))⟩,
        fun hboth => hboth.1⟩

end Lists

end Timer


/-- The messages that the timer's thread has taken out and not pushed yet. -/
def Phase.current : Phase → List TimerNode
  | .idle => []
  | .first current => current
  | .second current => current

def nodeOf (due : Nat × TimerEvent) : TimerNode := { expire := due.1 % word, event := due.2 }

namespace Clock

variable {s : Clock} {pending : List (Nat × TimerEvent)}

def inFlight (s : Clock) : List (Nat × TimerEvent) :=
  s.phase.current.map fun node => (s.ticks, node.event)

/-- What is asked for has been pushed, is about to be, or is in the timer. -/
structure Keeps (s : Clock) (pending : List (Nat × TimerEvent)) : Prop where
  time : s.timer.time = s.ticks % word
  soon : ∀ due ∈ pending, s.ticks < due.1 ∧ due.1 ≤ s.ticks + 2147483648
  holds : s.timer.Holds (pending.map nodeOf)
  once : ∀ current, s.phase ≠ .first current
  told : (s.pushed ++ s.inFlight ++ pending).Perm s.asked
  past : ∀ due ∈ s.pushed, due.1 ≤ s.ticks

/-- The same while the list of the present tick has not been taken out. -/
structure Shifted (s : Clock) (pending : List (Nat × TimerEvent)) : Prop where
  time : s.timer.time = s.ticks % word
  soon : ∀ due ∈ pending, s.ticks ≤ due.1 ∧ due.1 ≤ s.ticks + 2147483648
  holds : s.timer.Holds (pending.map nodeOf)
  told : (s.pushed ++ pending).Perm s.asked
  past : ∀ due ∈ s.pushed, due.1 ≤ s.ticks

section Steps

theorem expire_eq_iff {ticks : Nat} {due : Nat × TimerEvent}
    (hdue : ticks ≤ due.1 ∧ due.1 ≤ ticks + 2147483648) :
    (nodeOf due).expire = ticks % word ↔ due.1 = ticks := by
  change due.1 % 4294967296 = ticks % 4294967296 ↔ _
  omega

/-- What is due at this tick, as messages. -/
theorem messages_due (ticks : Nat) (pending : List (Nat × TimerEvent)) :
    (((pending.filter fun due => due.1 = ticks).map nodeOf).map fun node => (ticks, node.event)) =
      pending.filter fun due => due.1 = ticks := by
  rw [List.map_map]
  refine (List.map_congr_left fun due hdue => ?_).trans (List.map_id _)
  have heq : due.1 = ticks := by simpa using (List.mem_filter.mp hdue).2
  exact Prod.ext heq.symm rfl

/-- The second `timer_execute` takes out what is due at this tick. -/
theorem Shifted.executeSecond (h : s.Shifted pending) :
    ∃ pending', s.executeSecond.Keeps pending' := by
  obtain ⟨hnow, hrest⟩ := h.holds.now
  have hsplit : (pending.filter (fun due => due.1 = s.ticks) ++
      pending.filter fun due => !decide (due.1 = s.ticks)).Perm pending :=
        List.filter_append_perm _ pending
  have hdue : ∀ due ∈ pending, decide ((nodeOf due).expire = s.timer.time) =
      decide (due.1 = s.ticks) := by
    intro due hdue
    rw [h.time, Bool.eq_iff_iff, decide_eq_true_eq, decide_eq_true_eq]
    exact expire_eq_iff (h.soon due hdue)
  have hlater : ∀ due ∈ pending, decide ((nodeOf due).expire ≠ s.timer.time) =
      !decide (due.1 = s.ticks) := by
    intro due hmem
    rw [decide_not, hdue due hmem]
  have hnowDue : (pending.map nodeOf).filter (fun node => node.expire = s.timer.time) =
      (pending.filter fun due => due.1 = s.ticks).map nodeOf :=
    List.filter_map.trans (congrArg (List.map nodeOf) (List.filter_congr hdue))
  have hlaterDue : (pending.map nodeOf).filter (fun node => node.expire ≠ s.timer.time) =
      (pending.filter fun due => !decide (due.1 = s.ticks)).map nodeOf :=
    List.filter_map.trans (congrArg (List.map nodeOf) (List.filter_congr hlater))
  rw [hnowDue] at hnow
  rw [hlaterDue] at hrest
  unfold Clock.executeSecond
  cases hlist : s.timer.lists s.timer.now with
  | nil =>
      dsimp only
      rw [hlist, List.nil_perm, List.map_eq_nil_iff, List.filter_eq_nil_iff] at hnow
      refine ⟨pending, h.time, fun due hmem => ?_, h.holds,
        (fun _ hphase => by cases hphase), ?_, h.past⟩
      · have hne := hnow due hmem
        rw [decide_eq_true_eq] at hne
        have hle := h.soon due hmem
        exact ⟨Nat.lt_of_le_of_ne hle.1 (Ne.symm hne), hle.2⟩
      · change (s.pushed ++ [] ++ pending).Perm s.asked
        rw [List.append_nil]
        exact h.told
  | cons node current =>
      dsimp only
      rw [hlist] at hnow
      have hmessages := hnow.map fun node => (s.ticks, node.event)
      rw [messages_due] at hmessages
      refine ⟨_, h.time, fun due hmem => ?_, hrest, (fun _ hphase => by cases hphase), ?_, h.past⟩
      · obtain ⟨hmem, hne⟩ := List.mem_filter.mp hmem
        have hne : due.1 ≠ s.ticks := by simpa using hne
        have hle := h.soon due hmem
        exact ⟨Nat.lt_of_le_of_ne hle.1 (Ne.symm hne), hle.2⟩
      · refine List.Perm.trans ?_ h.told
        rw [List.append_assoc]
        exact ((hmessages.append_right _).trans hsplit).append_left _

/-- The first `timer_execute` finds nothing: what is in the timer is due later. -/
theorem Keeps.executeFirst (h : s.Keeps pending) (hflight : s.inFlight = []) :
    ∃ pending', s.executeFirst.Keeps pending' := by
  have hempty : s.timer.lists s.timer.now = [] := by
    refine List.Perm.eq_nil (h.holds.now.1.trans (List.Perm.of_eq ?_))
    rw [List.filter_eq_nil_iff]
    intro node hnode hexpire
    obtain ⟨due, hdue, rfl⟩ := List.mem_map.mp hnode
    have hsoon := h.soon due hdue
    rw [decide_eq_true_eq, h.time, expire_eq_iff ⟨Nat.le_of_lt hsoon.1, hsoon.2⟩] at hexpire
    omega
  have hsoon : s.timer.Soon (pending.map nodeOf) := by
    intro node hnode
    obtain ⟨due, hdue, rfl⟩ := List.mem_map.mp hnode
    have hdue := h.soon due hdue
    refine ⟨due.1 - s.ticks, by omega, by omega, ?_⟩
    change due.1 % word = _
    rw [h.time, Nat.mod_add_mod, Nat.add_sub_cancel' (Nat.le_of_lt hdue.1)]
  have htime : s.timer.time < word := by
    rw [h.time]
    exact Nat.mod_lt _ (by decide)
  obtain ⟨hholds, hshifted⟩ := h.holds.timerShift htime hsoon
  rw [Clock.executeFirst, hempty]
  suffices hnext : Shifted _ pending from hnext.executeSecond
  refine ⟨?_, fun due hdue => ?_, hholds, ?_, fun due hdue => ?_⟩
  · change s.timer.timerShift.time = (s.ticks + 1) % word
    rw [hshifted, h.time, Nat.mod_add_mod]
  · have hdue := h.soon due hdue
    change s.ticks + 1 ≤ due.1 ∧ due.1 ≤ s.ticks + 1 + 2147483648
    omega
  · have htold := h.told
    rw [hflight, List.append_nil] at htold
    exact htold
  · exact Nat.le_trans (h.past due hdue) (Nat.le_succ _)

theorem Keeps.timeout (h : s.Keeps pending) (handle : UInt32) (time session : Int32) :
    ∃ pending', (s.timeout handle time session).Keeps pending' := by
  unfold Clock.timeout
  dsimp only
  split_ifs with hnow
  · have hticks : s.ticks + time.toInt.toNat = s.ticks := by omega
    refine ⟨pending, h.time, h.soon, h.holds, h.once, ?_, fun due hdue => ?_⟩
    · change ((s.pushed ++ [(s.ticks, _)]) ++ s.inFlight ++ pending).Perm
        (s.asked ++ [(s.ticks + time.toInt.toNat, _)])
      rw [hticks, List.append_assoc (s.pushed ++ _), List.append_assoc]
      refine List.Perm.trans ?_ (h.told.append_right _)
      rw [List.append_assoc, List.append_assoc]
      refine List.Perm.append_left _ (List.perm_append_comm.trans ?_)
      rw [List.append_assoc]
    · rcases List.mem_append.mp hdue with hdue | hdue
      · exact h.past due hdue
      · exact Nat.le_of_eq (congrArg Prod.fst (List.mem_singleton.mp hdue))
  · have hlt : time.toInt < 2147483648 := time.toInt_lt
    have hnode : nodeOf (s.ticks + time.toInt.toNat, ({ handle, session } : TimerEvent)) =
        { expire := ((time.toInt + s.timer.time) % word).toNat, event := { handle, session } } := by
      rw [nodeOf, TimerNode.mk.injEq, h.time]
      refine ⟨?_, rfl⟩
      change (s.ticks + time.toInt.toNat) % 4294967296 =
        ((time.toInt + (s.ticks % 4294967296 : Nat)) % (4294967296 : Nat)).toNat
      omega
    have hadded :=
      h.holds.addNode (nodeOf (s.ticks + time.toInt.toNat, ({ handle, session } : TimerEvent)))
    refine ⟨pending ++ [(s.ticks + time.toInt.toNat, ({ handle, session } : TimerEvent))], h.time,
      fun due hdue => ?_,
      ?_, h.once, ?_, h.past⟩
    · rcases List.mem_append.mp hdue with hdue | hdue
      · exact h.soon due hdue
      · rw [List.mem_singleton.mp hdue]
        change s.ticks < s.ticks + time.toInt.toNat ∧ s.ticks + time.toInt.toNat ≤
          s.ticks + 2147483648
        omega
    · rw [List.map_append, List.map_cons, List.map_nil]
      rw [hnode] at hadded ⊢
      exact hadded
    · change (s.pushed ++ s.inFlight ++ (pending ++ _)).Perm _
      rw [← List.append_assoc]
      exact h.told.append_right _

theorem Keeps.turn (h : s.Keeps pending) : ∃ pending', s.turn.Keeps pending' := by
  unfold Clock.turn
  cases hphase : s.phase with
  | idle =>
      dsimp only
      split_ifs
      · exact ⟨pending, h⟩
      · exact h.executeFirst (by rw [inFlight, hphase]; rfl)
  | first current => exact absurd hphase (h.once current)
  | second current =>
      have htold := h.told
      rw [inFlight, hphase] at htold
      cases current with
      | nil =>
          dsimp only
          rw [Phase.current, List.map_nil, List.append_nil] at htold
          exact Shifted.executeSecond
            ⟨h.time, fun due hdue => ⟨Nat.le_of_lt (h.soon due hdue).1, (h.soon due hdue).2⟩,
            h.holds, htold, h.past⟩
      | cons node current =>
          have hpast : ∀ due ∈ (s.push node.event).pushed, due.1 ≤ s.ticks := by
            intro due hdue
            rcases List.mem_append.mp hdue with hdue | hdue
            · exact h.past due hdue
            · exact Nat.le_of_eq (congrArg Prod.fst (List.mem_singleton.mp hdue))
          have hpushed : (s.push node.event).pushed ++
              (current.map fun node => (s.ticks, node.event)) ++ pending =
              s.pushed ++ ((node :: current).map fun node => (s.ticks, node.event)) ++ pending := by
            rw [Clock.push, List.map_cons, List.append_assoc s.pushed, List.singleton_append]
          dsimp only
          split_ifs with hlast
          · refine Shifted.executeSecond ⟨h.time, fun due hdue =>
              ⟨Nat.le_of_lt (h.soon due hdue).1, (h.soon due hdue).2⟩, h.holds, ?_, hpast⟩
            subst hlast
            rw [List.map_nil, List.append_nil] at hpushed
            rw [hpushed]
            exact htold
          · refine ⟨pending, h.time, h.soon, h.holds, (fun _ hnext => by cases hnext), ?_, hpast⟩
            change ((s.push node.event).pushed ++ (current.map fun node => (s.ticks, node.event)) ++
              pending).Perm s.asked
            rw [hpushed]
            exact htold

theorem Keeps.step (h : s.Keeps pending) (event : Event) :
    ∃ pending', (s.step event).Keeps pending' := by
  cases event with
  | timeout handle time session => exact h.timeout handle time session
  | updatetime cp =>
      rw [Clock.step]
      split_ifs
      · refine ⟨pending, ?_⟩
        unfold Clock.updatetime
        split_ifs
        · exact { h with }
        · exact { h with }
        · exact h
      · exact ⟨pending, h⟩
  | turn => exact h.turn

theorem keeps_run (current currentPoint : Nat) (events : List Event) :
    ∃ pending, (run current currentPoint events).Keeps pending := by
  have hstart : ∃ pending, (start current currentPoint).Keeps pending :=
    ⟨[], rfl, fun _ hdue => absurd hdue List.not_mem_nil, fun _ => List.Perm.refl _,
      (fun _ hphase => by cases hphase),
      List.Perm.refl _, fun _ hdue => absurd hdue List.not_mem_nil⟩
  have hstep : ∀ (s : Clock) (event : Event), (∃ pending, s.Keeps pending) → True →
      ∃ pending, (s.step event).Keeps pending := fun _ event ⟨_, h⟩ _ => h.step event
  exact Run.invariant hstep events _ hstart (Run.Along.of_forall (fun _ _ => trivial) events _)

end Steps

end Clock

/-- Whether the tick of the present `timer_update` has been counted. -/
def Phase.counted : Phase → Nat
  | .second _ => 1
  | _ => 0

namespace Clock

variable {s : Clock} {current : Nat}

/-- The clock says how many ticks there have been and how many are to come. -/
structure Tells (s : Clock) (current : Nat) : Prop where
  total : (s.current + s.phase.counted) % 2 ^ 64 = (current + s.ticks + s.updates) % 2 ^ 64
  busy : s.phase ≠ .idle → s.updates ≠ 0

section Steps

theorem tells_executeSecond
    (htotal : (s.current + 1) % 2 ^ 64 = (current + s.ticks + s.updates) % 2 ^ 64)
    (hbusy : s.updates ≠ 0) : s.executeSecond.Tells current := by
  unfold Clock.executeSecond
  cases s.timer.lists s.timer.now with
  | nil =>
      refine ⟨?_, fun hphase => absurd rfl hphase⟩
      change (s.current + 0) % 2 ^ 64 = (current + s.ticks + (s.updates - 1)) % 2 ^ 64
      omega
  | cons node list => exact ⟨htotal, fun _ => hbusy⟩

theorem tells_executeFirst (htotal : s.current % 2 ^ 64 = (current + s.ticks + s.updates) % 2 ^ 64)
    (hbusy : s.updates ≠ 0) : s.executeFirst.Tells current := by
  unfold Clock.executeFirst
  cases s.timer.lists s.timer.now with
  | nil =>
      refine tells_executeSecond ?_ hbusy
      change (s.current + 1) % 2 ^ 64 = (current + (s.ticks + 1) + s.updates) % 2 ^ 64
      omega
  | cons node list => exact ⟨htotal, fun _ => hbusy⟩

theorem Tells.step (h : s.Tells current) (event : Event) : (s.step event).Tells current := by
  cases event with
  | timeout handle time session =>
      rw [Clock.step, Clock.timeout]
      split_ifs
      · exact ⟨h.total, h.busy⟩
      · exact ⟨h.total, h.busy⟩
  | updatetime cp =>
      rw [Clock.step]
      split_ifs with hidle
      · have htotal := h.total
        rw [hidle.1, hidle.2] at htotal
        unfold Clock.updatetime
        split_ifs
        · exact ⟨h.total, h.busy⟩
        · refine ⟨?_, fun hphase => absurd hidle.1 hphase⟩
          change ((s.current + _) % 2 ^ 64 + s.phase.counted) % 2 ^ 64 = _
          rw [hidle.1]
          simp only [Phase.counted] at htotal ⊢
          omega
        · exact h
      · exact h
  | turn =>
      have htotal := h.total
      rw [Clock.step, Clock.turn]
      cases hphase : s.phase with
      | idle =>
          rw [hphase] at htotal
          dsimp only
          split_ifs with hupdates
          · exact h
          · exact tells_executeFirst htotal hupdates
      | first list =>
          have hbusy := h.busy (by rw [hphase]; exact Phase.noConfusion)
          rw [hphase] at htotal
          cases list with
          | nil => exact tells_executeFirst htotal hbusy
          | cons node list =>
              dsimp only
              split_ifs
              · exact tells_executeFirst (s := s.push node.event) htotal hbusy
              · exact ⟨htotal, fun _ => hbusy⟩
      | second list =>
          have hbusy := h.busy (by rw [hphase]; exact Phase.noConfusion)
          rw [hphase] at htotal
          cases list with
          | nil => exact tells_executeSecond htotal hbusy
          | cons node list =>
              dsimp only
              split_ifs
              · exact tells_executeSecond (s := s.push node.event) htotal hbusy
              · exact ⟨htotal, fun _ => hbusy⟩

theorem tells_run (current currentPoint : Nat) (events : List Event) :
    (run current currentPoint events).Tells current := by
  have hstart : (start current currentPoint).Tells current := ⟨rfl, fun hphase => absurd rfl hphase⟩
  have hstep : ∀ (s : Clock) (event : Event), s.Tells current → True →
      (s.step event).Tells current :=
    fun _ event h _ => h.step event
  exact Run.invariant hstep events _ hstart (Run.Along.of_forall (fun _ _ => trivial) events _)

end Steps

end Clock

/-- **Every timer once, at its tick.** However services ask, also while a tick is being worked on
and when the 32 bits of the time run over: the messages that have been pushed, each with the tick at
which it was, and those that the timer's thread is about to push at this one, are what has been
asked for up to this tick. Between two updates all of them have been pushed, and the clock has gone
on by as many ticks. -/
theorem timeouts_pushed_once_when_due (current currentPoint : Nat) (events : List Event) :
    ((run current currentPoint events).pushed ++ (run current currentPoint events).inFlight).Perm
        ((run current currentPoint events).asked.filter fun due => due.1 ≤
          (run current currentPoint events).ticks) ∧
      ((run current currentPoint events).phase = .idle →
        (run current currentPoint events).updates = 0 →
        (run current currentPoint events).inFlight = [] ∧
        (run current currentPoint events).current % 2 ^ 64 =
          (current + (run current currentPoint events).ticks) % 2 ^ 64) := by
  obtain ⟨pending, h⟩ := Clock.keeps_run current currentPoint events
  have htotal := (Clock.tells_run current currentPoint events).total
  set s := run current currentPoint events
  refine ⟨?_, fun hidle hupdates => ⟨by rw [Clock.inFlight, hidle]; rfl, ?_⟩⟩
  swap
  · rw [hidle, hupdates] at htotal
    exact htotal
  have htold := h.told.filter fun due => due.1 ≤ s.ticks
  rw [List.filter_append] at htold
  have hlater : pending.filter (fun due => due.1 ≤ s.ticks) = [] := by
    rw [List.filter_eq_nil_iff]
    intro due hdue
    have hsoon := (h.soon due hdue).1
    rw [decide_eq_true_eq]
    omega
  have hdone : (s.pushed ++ s.inFlight).filter (fun due => due.1 ≤ s.ticks) =
      s.pushed ++ s.inFlight := by
    rw [List.filter_eq_self]
    intro due hdue
    rw [decide_eq_true_eq]
    rcases List.mem_append.mp hdue with hdue | hdue
    · exact h.past due hdue
    · obtain ⟨node, -, rfl⟩ := List.mem_map.mp hdue
      exact Nat.le_refl _
  rw [hlater, hdone, List.append_nil] at htold
  exact htold

end SdyServer.SkynetTimer
