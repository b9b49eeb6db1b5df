import Mathlib.Data.List.Nodup
import SdyServer.Skynet.Queue

/-!
# Who is inside

However the coroutines of a service interleave, the function of `skynet.queue` lets one in at a
time, in the order in which they came, and nobody is forgotten. So the state that the bodies work on
is what they leave when they are run one after the other.
-/

namespace SdyServer.CriticalSection

variable {σ α : Type}

section Trace

def Happened.arrived? : Happened α → Option Thread
  | .arrived thread => some thread
  | _ => none

def Happened.entered? : Happened α → Option Thread
  | .entered thread => some thread
  | _ => none

def Happened.did? : Happened α → Option (Thread × α)
  | .did thread a => some (thread, a)
  | _ => none

/-- The coroutines in the order of their outermost calls. -/
def arrived (trace : List (Happened α)) : List Thread := trace.filterMap Happened.arrived?

/-- The coroutines in the order in which they got in. -/
def entered (trace : List (Happened α)) : List Thread := trace.filterMap Happened.entered?

/-- What has been done, and by whom. -/
def works (trace : List (Happened α)) : List (Thread × α) := trace.filterMap Happened.did?

/-- What is done when each coroutine of the list does its part before the next. -/
def worksOf (turns : List (Thread × List α)) : List (Thread × α) :=
  turns.flatMap fun turn => turn.2.map fun a => (turn.1, a)

theorem worksOf_append (turns turns' : List (Thread × List α)) :
    worksOf (turns ++ turns') = worksOf turns ++ worksOf turns' := List.flatMap_append

theorem worksOf_single (thread : Thread) (acts : List α) :
    worksOf [(thread, acts)] = acts.map (thread, ·) := by
  rw [worksOf, List.flatMap_cons, List.flatMap_nil, List.append_nil]

variable {β : Type} (trace : List (Happened α)) (happened : Happened α)

theorem filterMap_concat (f : Happened α → Option β) :
    (trace ++ [happened]).filterMap f = trace.filterMap f ++ (f happened).toList := by
  rw [List.filterMap_append]
  cases h : f happened with
  | none => rw [List.filterMap_cons_none h, List.filterMap_nil, Option.toList_none]
  | some b => rw [List.filterMap_cons_some h, List.filterMap_nil, Option.toList_some]

@[simp]
theorem arrived_concat :
    arrived (trace ++ [happened]) = arrived trace ++ happened.arrived?.toList :=
  filterMap_concat ..

@[simp]
theorem entered_concat :
    entered (trace ++ [happened]) = entered trace ++ happened.entered?.toList :=
  filterMap_concat ..

@[simp]
theorem works_concat : works (trace ++ [happened]) = works trace ++ happened.did?.toList :=
  filterMap_concat ..

end Trace

namespace Cs

variable {act : σ → α → σ} {start : σ} {s : Cs σ α} {thread other : Thread}

/-- Those that wait, in the order in which they will get in. -/
def waiting (s : Cs σ α) : List Thread := s.wakeupQueue ++ s.threadQueue

/-- The coroutine is inside, and nobody else is. -/
structure Held (s : Cs σ α) (thread : Thread) : Prop where
  current : s.currentThread = some thread
  ref : s.ref = s.depth thread
  inside : s.depth thread ≠ 0
  alone : ∀ other, s.depth other ≠ 0 → other = thread
  woken : s.wakeupQueue = []
  last : (entered s.trace).getLast? = some thread

/-- Nobody is inside, and the first of those that wait has been woken. -/
structure Vacant (s : Cs σ α) : Prop where
  current : s.currentThread = s.waiting.head?
  ref : s.ref = 0
  alone : ∀ thread, s.depth thread = 0
  woken : s.wakeupQueue = s.waiting.head?.toList

/-- The works come in turns, one for each time that a coroutine got in. -/
def InTurns (trace : List (Happened α)) : Prop :=
  ∃ turns, works trace = worksOf turns ∧ turns.map Prod.fst = entered trace

/-- What the trace says of the coroutines that wait and of the state. -/
structure Told (act : σ → α → σ) (start : σ) (s : Cs σ α) : Prop where
  order : arrived s.trace = entered s.trace ++ s.waiting
  inTurns : InTurns s.trace
  shared : s.shared = (works s.trace).foldl (fun x work => act x work.2) start

structure Inv (act : σ → α → σ) (start : σ) (s : Cs σ α) : Prop where
  sound : s.failed = false
  sleeping : ∀ thread, s.sleeping thread = true ↔ thread ∈ s.waiting
  nodup : s.waiting.Nodup
  phase : (∃ thread, s.Held thread) ∨ s.Vacant
  told : s.Told act start

section Turns

variable {trace : List (Happened α)}

theorem InTurns.enter (h : InTurns trace) (thread : Thread) :
    InTurns (trace ++ [.entered thread]) := by
  obtain ⟨turns, hworks, hentered⟩ := h
  refine ⟨turns ++ [(thread, [])], ?_, ?_⟩
  · rw [worksOf_append, worksOf_single, ← hworks, works_concat]
    rfl
  · rw [List.map_append, hentered, entered_concat]
    rfl

/-- Only the one that got in last goes on working. -/
theorem InTurns.work (h : InTurns trace) (hlast : (entered trace).getLast? = some thread) (a : α) :
    InTurns (trace ++ [.did thread a]) := by
  obtain ⟨turns, hworks, hentered⟩ := h
  rw [← hentered, List.getLast?_map] at hlast
  obtain ⟨⟨last, acts⟩, hturn, hlast⟩ := Option.map_eq_some_iff.mp hlast
  obtain rfl : last = thread := hlast
  obtain ⟨before, rfl⟩ := List.getLast?_eq_some_iff.mp hturn
  refine ⟨before ++ [(last, acts ++ [a])], ?_, ?_⟩
  · rw [works_concat, hworks, worksOf_append, worksOf_append, worksOf_single, worksOf_single,
      List.map_append,
      List.append_assoc]
    rfl
  · rw [entered_concat, ← hentered, List.map_append, List.map_append]
    exact (List.append_nil _).symm

theorem InTurns.silent (h : InTurns trace) {happened : Happened α}
    (hentered : happened.entered? = none)
    (hdid : happened.did? = none) : InTurns (trace ++ [happened]) := by
  rw [InTurns, works_concat, entered_concat, hdid, hentered, Option.toList_none, Option.toList_none,
    List.append_nil, List.append_nil]
  exact h

end Turns

section Steps

/-- Something happens that tells nothing of the order or of the works. -/
theorem Told.note (h : s.Told act start) {happened : Happened α}
    (harrived : happened.arrived? = none)
    (hentered : happened.entered? = none) (hdid : happened.did? = none) :
    (s.note happened).Told act start where
  order := by
    rw [Cs.note, arrived_concat, entered_concat, harrived, hentered, Option.toList_none,
      List.append_nil,
      List.append_nil]
    exact h.order
  inTurns := h.inTurns.silent hentered hdid
  shared := by
    rw [Cs.note, works_concat, hdid, Option.toList_none, List.append_nil]
    exact h.shared

/-- Who is inside does not sleep. -/
theorem Inv.held_of_inside (h : s.Inv act start) (hinside : s.depth thread ≠ 0) :
    s.Held thread := by
  rcases h.phase with ⟨holder, hheld⟩ | hvacant
  · obtain rfl := hheld.alone thread hinside
    exact hheld
  · exact absurd (hvacant.alone thread) hinside

/-- A coroutine that finds another one inside, or on its way, goes to the end of the queue. -/
theorem Inv.queue (h : s.Inv act start) (hawake : s.sleeping thread = false)
    (htaken : s.currentThread ≠ none) :
    ({ s.note (.arrived thread) with threadQueue := s.threadQueue ++ [thread] }.wait thread).Inv
    act start := by
  have hfresh : thread ∉ s.waiting := fun hmem => by
    rw [(h.sleeping thread).mpr hmem] at hawake
    cases hawake
  set s' : Cs σ α :=
    { s.note (.arrived thread) with threadQueue := s.threadQueue ++ [thread] }.wait thread with hs'
  have hwaiting : s'.waiting = s.waiting ++ [thread] := (List.append_assoc ..).symm
  refine ⟨h.sound, fun other => ?_, ?_, ?_, ?_, ?_, ?_⟩
  · rw [hwaiting, List.mem_append, List.mem_singleton, ← h.sleeping other]
    change Function.update s.sleeping thread true other = true ↔ _
    by_cases hother : other = thread
    · simp [hother]
    · simp [hother]
  · rw [hwaiting]
    exact List.Nodup.append h.nodup (List.nodup_singleton _) (List.disjoint_singleton.mpr hfresh)
  · rcases h.phase with ⟨holder, hheld⟩ | hvacant
    · refine .inl ⟨holder, { hheld with last := ?_ }⟩
      change (entered (s.trace ++ [.arrived thread])).getLast? = _
      rw [entered_concat, ← hheld.last]
      exact congrArg List.getLast? (List.append_nil _)
    · have hhead : (s.waiting ++ [thread]).head? = s.waiting.head? := by
        cases hempty : s.waiting with
        | nil =>
            refine absurd ?_ htaken
            rw [hvacant.current, hempty, List.head?_nil]
        | cons next waiting => rfl
      refine .inr ⟨?_, hvacant.ref, hvacant.alone, ?_⟩
      · rw [hwaiting, hhead]
        exact hvacant.current
      · rw [hwaiting, hhead]
        exact hvacant.woken
  · change arrived (s.trace ++ [.arrived thread]) = entered (s.trace ++ [.arrived thread]) ++ _
    rw [arrived_concat, entered_concat, hwaiting, h.told.order]
    simp [Happened.arrived?, Happened.entered?]
  · exact h.told.inTurns.silent rfl rfl
  · change s.shared = _
    rw [h.told.shared]
    change _ = (works (s.trace ++ [.arrived thread])).foldl _ _
    rw [works_concat]
    exact congrArg (List.foldl _ _) (List.append_nil _).symm

/-- The coroutine whose turn it is gets in. -/
theorem enter_inv (hsound : s.failed = false)
    (hsleeping : ∀ other, s.sleeping other = true ↔ other ∈ s.threadQueue)
    (hnodup : s.threadQueue.Nodup) (hwoken : s.wakeupQueue = []) (href : s.ref = 0)
    (hdepth : ∀ other, s.depth other = 0)
    (horder : arrived s.trace = entered s.trace ++ thread :: s.threadQueue)
    (hturns : InTurns s.trace)
    (hshared : s.shared = (works s.trace).foldl (fun x work => act x work.2) start) :
    (s.enter thread).Inv act start := by
  have henter : s.enter thread = { s with
      trace := s.trace ++ [.entered thread], currentThread := some thread, ref := s.ref + 1
      depth := Function.update s.depth thread (s.depth thread + 1) } := by
    rw [Cs.enter, if_pos (hdepth thread), Cs.note]
  have hwaiting : (s.enter thread).waiting = s.threadQueue := by
    rw [henter, waiting, hwoken, List.nil_append]
  refine ⟨by rw [henter]; exact hsound, fun other => ?_, hwaiting ▸ hnodup, .inl ⟨thread,
    ?_⟩, ?_, ?_, ?_⟩
  · rw [hwaiting, ← hsleeping other, henter]
  · rw [henter]
    refine ⟨rfl, ?_, ?_, fun other hother => ?_, hwoken, ?_⟩
    · change s.ref + 1 = (Function.update s.depth thread (s.depth thread + 1) thread : Nat)
      rw [Function.update_self, href, hdepth thread]
      rfl
    · change Function.update s.depth thread (s.depth thread + 1) thread ≠ 0
      rw [Function.update_self]
      exact Nat.succ_ne_zero _
    · by_contra hne
      change Function.update s.depth thread (s.depth thread + 1) other ≠ 0 at hother
      rw [Function.update_of_ne hne] at hother
      exact hother (hdepth other)
    · rw [entered_concat]
      exact List.getLast?_concat
  · rw [hwaiting, henter, arrived_concat, entered_concat, horder]
    simp [Happened.arrived?, Happened.entered?]
  · rw [henter]
    exact hturns.enter thread
  · rw [henter]
    change s.shared = _
    rw [hshared, works_concat]
    exact congrArg (List.foldl _ _) (List.append_nil _).symm

/-- The coroutine that is inside goes in again. -/
theorem Inv.enter_again (h : s.Inv act start) (hheld : s.Held thread) :
    (s.enter thread).Inv act start := by
  have henter : s.enter thread = { s with
      currentThread := some thread, ref := s.ref + 1
      depth := Function.update s.depth thread (s.depth thread + 1) } := by
    rw [Cs.enter, if_neg hheld.inside]
  rw [henter]
  refine ⟨h.sound, h.sleeping, h.nodup,
    .inl ⟨thread, rfl, ?_, ?_, fun other hother => ?_, hheld.woken, hheld.last⟩,
    h.told.order, h.told.inTurns, h.told.shared⟩
  · change s.ref + 1 = (Function.update s.depth thread (s.depth thread + 1) thread : Nat)
    rw [Function.update_self, hheld.ref]
    rfl
  · change Function.update s.depth thread (s.depth thread + 1) thread ≠ 0
    rw [Function.update_self]
    exact Nat.succ_ne_zero _
  · by_contra hne
    change Function.update s.depth thread (s.depth thread + 1) other ≠ 0 at hother
    rw [Function.update_of_ne hne] at hother
    exact hne (hheld.alone other hother)

theorem Inv.call (h : s.Inv act start) (hawake : s.sleeping thread = false) :
    (s.call thread).Inv act start := by
  by_cases hdepth : s.depth thread = 0
  · by_cases htaken : s.currentThread = none
    · rcases h.phase with ⟨holder, hheld⟩ | hvacant
      · rw [hheld.current] at htaken
        cases htaken
      · have hempty : s.waiting = [] := by
          rw [hvacant.current] at htaken
          exact List.head?_eq_none_iff.mp htaken
        obtain ⟨hwoken, hqueue⟩ := List.append_eq_nil_iff.mp hempty
        rw [Cs.call, if_pos hdepth, if_neg (by simp [Cs.note, htaken])]
        refine enter_inv h.sound (fun other => ?_) ?_ hwoken hvacant.ref hvacant.alone ?_ ?_ ?_
        · rw [show (s.note (.arrived thread)).threadQueue = s.waiting by rw [hempty]; exact hqueue]
          exact h.sleeping other
        · rw [show (s.note (.arrived thread)).threadQueue = [] from hqueue]
          exact List.nodup_nil
        · rw [show (s.note (.arrived thread)).threadQueue = [] from hqueue, Cs.note, arrived_concat,
            entered_concat,
            h.told.order, hempty]
          simp [Happened.arrived?, Happened.entered?]
        · exact h.told.inTurns.silent rfl rfl
        · rw [Cs.note, works_concat]
          exact h.told.shared.trans (congrArg (List.foldl _ _) (List.append_nil _).symm)
    · have hother : s.currentThread ≠ some thread := by
        rcases h.phase with ⟨holder, hheld⟩ | hvacant
        · rw [hheld.current]
          intro heq
          cases heq
          exact hheld.inside hdepth
        · -- the one that has been woken still sleeps
          rw [hvacant.current]
          intro heq
          rw [(h.sleeping thread).mpr (List.mem_of_mem_head? heq)] at hawake
          cases hawake
      rw [Cs.call, if_pos hdepth, if_pos ⟨htaken, hother⟩]
      exact h.queue hawake htaken
  · have hheld := h.held_of_inside hdepth
    rw [Cs.call, if_neg hdepth, if_neg (by simp [hheld.current])]
    exact h.enter_again hheld

theorem Inv.work (h : s.Inv act start) (hinside : s.depth thread ≠ 0) (a : α) :
    ({ s with shared := act s.shared a }.note (.did thread a)).Inv act start := by
  have hheld := h.held_of_inside hinside
  refine ⟨h.sound, h.sleeping, h.nodup, .inl ⟨thread, { hheld with last := ?_ }⟩, ?_, ?_, ?_⟩
  · rw [Cs.note, entered_concat, ← hheld.last]
    exact congrArg List.getLast? (List.append_nil _)
  · rw [Cs.note, arrived_concat, entered_concat]
    simp only [Happened.arrived?, Happened.entered?, Option.toList_none, List.append_nil]
    exact h.told.order
  · exact h.told.inTurns.work hheld.last a
  · rw [Cs.note, works_concat]
    simp only [Happened.did?, Option.toList_some, List.foldl_append, ← h.told.shared]
    rfl

/-- Where a coroutine returns makes no difference for the others. -/
theorem Inv.note_returned (h : s.Inv act start) (thread : Thread) (ok : Bool) :
    (s.note (.returned thread ok)).Inv act start := by
  refine ⟨h.sound, h.sleeping, h.nodup, ?_, h.told.note rfl rfl rfl⟩
  rcases h.phase with ⟨holder, hheld⟩ | hvacant
  · refine .inl ⟨holder, { hheld with last := ?_ }⟩
    rw [Cs.note, entered_concat, ← hheld.last]
    exact congrArg List.getLast? (List.append_nil _)
  · exact .inr { hvacant with }

/-- One level out, `xpcall_ret` has only the counts to change. -/
theorem Inv.leave_inner (h : s.Inv act start) (hinside : s.depth thread ≠ 0)
    (hinner : s.depth thread ≠ 1) :
    ({ s with ref := s.ref - 1, depth := Function.update s.depth thread (s.depth thread - 1) } :
      Cs σ α).Inv act
      start := by
  have hheld := h.held_of_inside hinside
  refine ⟨h.sound, h.sleeping, h.nodup,
    .inl ⟨thread, hheld.current, ?_, ?_, fun other hother => ?_, hheld.woken,
    hheld.last⟩, h.told.order, h.told.inTurns, h.told.shared⟩
  · change s.ref - 1 = (Function.update s.depth thread (s.depth thread - 1) thread : Nat)
    rw [Function.update_self, hheld.ref]
    omega
  · change Function.update s.depth thread (s.depth thread - 1) thread ≠ 0
    rw [Function.update_self]
    omega
  · by_contra hne
    change Function.update s.depth thread (s.depth thread - 1) other ≠ 0 at hother
    rw [Function.update_of_ne hne] at hother
    exact hne (hheld.alone other hother)

/-- The last level out: the first of those that wait is woken, and is the next one from now on. -/
theorem Inv.leave_outer (h : s.Inv act start) (hinside : s.depth thread = 1) :
    (match s.threadQueue with
      | [] => { s.note (.left thread) with ref := 0, depth := fun _ => 0, currentThread := none }
      | next :: threadQueue =>
          { s.note (.left thread) with
            ref := 0, depth := fun _ => 0, currentThread :=
              some next, threadQueue }.wakeup next).Inv act start := by
  have hheld := h.held_of_inside (by omega : s.depth thread ≠ 0)
  have htold : (s.note (.left thread)).Told act start := h.told.note rfl rfl rfl
  have hwaiting : s.waiting = s.threadQueue := by rw [waiting, hheld.woken, List.nil_append]
  cases hqueue : s.threadQueue with
  | nil =>
      dsimp only
      have hempty : s.waiting = [] := hwaiting.trans hqueue
      refine ⟨h.sound, h.sleeping, h.nodup, .inr ⟨?_, rfl, fun _ => rfl, ?_⟩, htold.order,
        htold.inTurns,
        htold.shared⟩
      · change none = s.waiting.head?
        rw [hempty, List.head?_nil]
      · change s.wakeupQueue = s.waiting.head?.toList
        rw [hempty, hheld.woken, List.head?_nil, Option.toList_none]
  | cons next threadQueue =>
      dsimp only
      have hasleep : s.sleeping next = true := by
        rw [h.sleeping next, hwaiting, hqueue]
        exact List.mem_cons_self
      have hwakeup : ∀ s' : Cs σ α, s'.sleeping = s.sleeping →
          s'.wakeup next = { s' with wakeupQueue := s'.wakeupQueue ++ [next] } :=
        fun s' hs' => if_pos (by rw [hs', hasleep])
      rw [hwakeup ({ s.note (.left thread) with
        ref := 0, depth := fun _ => 0, currentThread := some next, threadQueue }) rfl]
      have hsame : s.waiting = (s.wakeupQueue ++ [next]) ++ threadQueue := by
        rw [waiting, hqueue, List.append_assoc, List.singleton_append]
      have hfirst : s.waiting = next :: threadQueue := hwaiting.trans hqueue
      refine ⟨h.sound, fun other => ?_, ?_, .inr ⟨?_, rfl, fun _ => rfl, ?_⟩, ?_, htold.inTurns,
        htold.shared⟩
      · exact (h.sleeping other).trans (by rw [hsame]; rfl)
      · have hnodup := h.nodup
        rw [hsame] at hnodup
        exact hnodup
      · change some next = ((s.wakeupQueue ++ [next]) ++ threadQueue).head?
        rw [← hsame, hfirst, List.head?_cons]
      · change s.wakeupQueue ++ [next] = ((s.wakeupQueue ++ [next]) ++ threadQueue).head?.toList
        rw [← hsame, hfirst, hheld.woken]
        rfl
      · exact htold.order.trans (congrArg (_ ++ ·) hsame)

theorem Inv.xpcallRet (h : s.Inv act start) (hinside : s.depth thread ≠ 0) (ok : Bool) :
    (s.xpcallRet thread ok).Inv act start := by
  have hheld := h.held_of_inside hinside
  by_cases houter : s.depth thread = 1
  · have hdepth : Function.update s.depth thread (s.depth thread - 1) = fun _ => 0 := by
      funext other
      by_cases hother : other = thread
      · rw [hother, Function.update_self, houter]
      · rw [Function.update_of_ne hother]
        by_contra hne
        exact hother (hheld.alone other hne)
    have href : s.ref - 1 = 0 := by
      rw [hheld.ref, houter]
      rfl
    have hleft := h.leave_outer houter
    unfold Cs.xpcallRet
    rw [hdepth, href]
    cases hqueue : s.threadQueue with
    | nil =>
        rw [hqueue] at hleft
        simpa [Cs.note, hqueue] using hleft.note_returned thread ok
    | cons next threadQueue =>
        rw [hqueue] at hleft
        simpa [Cs.note, hqueue] using hleft.note_returned thread ok
  · have hdepth : Function.update s.depth thread (s.depth thread - 1) thread ≠ 0 := by
      rw [Function.update_self]
      omega
    have href : s.ref - 1 ≠ 0 := by
      rw [hheld.ref]
      omega
    unfold Cs.xpcallRet
    dsimp only
    rw [if_neg hdepth, if_neg href]
    exact (h.leave_inner hinside houter).note_returned thread ok

theorem Inv.dispatchWakeup (h : s.Inv act start) : s.dispatchWakeup.Inv act start := by
  unfold Cs.dispatchWakeup
  cases hwoken : s.wakeupQueue with
  | nil => exact h
  | cons thread wakeupQueue =>
      rcases h.phase with ⟨holder, hheld⟩ | hvacant
      · rw [hheld.woken] at hwoken
        cases hwoken
      · have hfirst : s.waiting = thread :: (wakeupQueue ++ s.threadQueue) := by
          rw [waiting, hwoken, List.cons_append]
        obtain rfl : wakeupQueue = [] := by
          have honly := hvacant.woken
          rw [hwoken, hfirst, List.head?_cons, Option.toList_some] at honly
          exact (List.cons.inj honly).2
        rw [List.nil_append] at hfirst
        have hnodup := h.nodup
        rw [hfirst, List.nodup_cons] at hnodup
        have hasleep : s.sleeping thread = true := by
          rw [h.sleeping thread, hfirst]
          exact List.mem_cons_self
        dsimp only
        rw [if_pos hasleep, if_pos hvacant.ref]
        refine enter_inv h.sound (fun other => ?_) hnodup.2 rfl hvacant.ref hvacant.alone ?_
          h.told.inTurns
          h.told.shared
        · change Function.update s.sleeping thread false other = true ↔ other ∈ s.threadQueue
          by_cases hother : other = thread
          · rw [hother, Function.update_self]
            exact ⟨fun hfalse => absurd hfalse Bool.false_ne_true, fun hmem => absurd hmem hnodup.1⟩
          · rw [Function.update_of_ne hother, h.sleeping other, hfirst, List.mem_cons]
            exact or_iff_right hother
        · rw [← hfirst]
          exact h.told.order

theorem Inv.step (h : s.Inv act start) (event : Event α) : (s.step act event).Inv act start := by
  cases event with
  | call thread =>
      rw [Cs.step]
      split_ifs with hasleep
      · exact h
      · exact h.call (Bool.eq_false_iff.mpr hasleep)
  | work thread a =>
      rw [Cs.step]
      split_ifs with hidle
      · exact h
      · exact h.work (fun hdepth => hidle (.inr hdepth)) a
  | ret thread ok =>
      rw [Cs.step]
      split_ifs with hidle
      · exact h
      · exact h.xpcallRet (fun hdepth => hidle (.inr hdepth)) ok
  | dispatchWakeup => exact h.dispatchWakeup

theorem inv_start (act : σ → α → σ) (start : σ) : ({ shared := start } : Cs σ α).Inv act start where
  sound := rfl
  sleeping _ :=
    ⟨fun hfalse => absurd hfalse Bool.false_ne_true, fun hmem => absurd hmem List.not_mem_nil⟩
  nodup := List.nodup_nil
  phase := .inr ⟨rfl, rfl, fun _ => rfl, rfl⟩
  told := ⟨rfl, ⟨[], rfl, rfl⟩, rfl⟩

theorem inv_run (act : σ → α → σ) (start : σ) (events : List (Event α)) :
    (run act start events).Inv act start :=
  Run.invariant (fun _ event h _ => h.step event) events _ (inv_start act start)
    (Run.Along.of_forall (fun _ _ => trivial) events _)

end Steps

end Cs

section Runs

variable (act : σ → α → σ) (start : σ) (events : List (Event α))

/-- **Mutual exclusion.** In every state that a run reaches, at most one coroutine is inside, the
assertion after `skynet.wait` has not failed, and where coroutines sleep someone is inside or the
first of them has been woken, so that it gets in as soon as the service goes on with it. -/
theorem one_inside_and_none_forgotten :
    (∀ thread other, (run act start events).depth thread ≠ 0 →
      (run act start events).depth other ≠ 0 →
      thread = other) ∧
    (run act start events).failed = false ∧
    (∀ thread, (run act start events).sleeping thread = true →
      (∃ holder, (run act start events).depth holder ≠ 0) ∨
        ∃ first, (run act start events).waiting.head? = some first ∧
          ((run act start events).step act .dispatchWakeup).depth first = 1) := by
  have hinv := Cs.inv_run act start events
  set s := run act start events
  refine ⟨fun thread other hthread hother => ?_, hinv.sound, fun thread hasleep => ?_⟩
  · exact ((hinv.held_of_inside hthread).alone other hother).symm
  · rcases hinv.phase with ⟨holder, hheld⟩ | hvacant
    · exact .inl ⟨holder, hheld.inside⟩
    · have hmem := (hinv.sleeping thread).mp hasleep
      obtain ⟨first, waiting, hwaiting⟩ := List.exists_cons_of_ne_nil (List.ne_nil_of_mem hmem)
      refine .inr ⟨first, by rw [hwaiting, List.head?_cons], ?_⟩
      have hwoken := hvacant.woken
      rw [hwaiting, List.head?_cons, Option.toList_some] at hwoken
      have hfirst : s.sleeping first = true := by
        rw [hinv.sleeping first, hwaiting]
        exact List.mem_cons_self
      simp [Cs.step, Cs.dispatchWakeup, hwoken, hfirst, hvacant.ref, Cs.enter,
        hvacant.alone first, Cs.note]

/-- **One after the other.** Whatever the coroutines do and wherever they wait, the state is the one
that their turns leave when each is run to its end before the next one begins, and they get in in
the order in which they came: those that wait are the ones that came last. -/
theorem turns_serial :
    ∃ turns : List (Thread × List α),
      (run act start events).shared = (worksOf turns).foldl (fun x work => act x work.2) start ∧
      works (run act start events).trace = worksOf turns ∧
      arrived (run act start events).trace = turns.map Prod.fst ++
      (run act start events).waiting := by
  obtain ⟨horder, ⟨turns, hworks, hentered⟩, hshared⟩ := (Cs.inv_run act start events).told
  exact ⟨turns, by rw [hshared, hworks], hworks, by rw [horder, hentered]⟩

end Runs

end SdyServer.CriticalSection
