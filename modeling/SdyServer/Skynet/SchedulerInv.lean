import Mathlib.Data.Finset.Card
import Mathlib.Data.List.Perm.Basic
import SdyServer.Skynet.Scheduler

/-!
# Whose a queue is

At any time a queue is nobody's and empty, or linked in the global list, or a worker's, or the
thread's that makes its context. Every reference to a context has an owner too: the handle table,
the thread that makes it, a sender, a thread about to give it back, or a worker. In the middle of an
event both may be in the hand of the thread.
-/

namespace SdyServer.Scheduler

inductive Owner where
  | none
  | global
  | starter
  | worker (worker : Worker)
  | hand
deriving DecidableEq

namespace Starting

/-- Whether a reference of the handle table or of `skynet_context_new` is still its own. -/
def share : Starting → Nat
  | .init => 1
  | .retiring => 1
  | _ => 0

end Starting

namespace Phase

/-- The queues that a worker has. -/
def queues : Phase → List Handle
  | .top (some h) => [h]
  | .releasing h => [h]
  | .dropping h => [h]
  | .ready h _ _ => [h]
  | .measuring h => [h]
  | .handling h _ _ => [h]
  | .finished h => [h]
  | .pushing h nq => [h, nq]
  | .leaving _ next => [next]
  | _ => []

/-- The context that a worker has. -/
def ctx : Phase → Option Handle
  | .ready h _ _ => some h
  | .measuring h => some h
  | .handling h _ _ => some h
  | .emptied h => some h
  | .finished h => some h
  | .pushing h _ => some h
  | .leaving h _ => some h
  | _ => none

end Phase

namespace MessageQueue

variable {q : MessageQueue} {message : Message}

section Ring

theorem raise_eq (length n : Nat) (q : MessageQueue) :
    (q.raise length n).ring = q.ring ∧ (q.raise length n).release = q.release ∧
      (q.raise length n).inGlobal = q.inGlobal := by
  induction n generalizing q with
  | zero => exact ⟨rfl, rfl, rfl⟩
  | succ n ih =>
      rw [raise]
      split_ifs
      · exact ih _
      · exact ⟨rfl, rfl, rfl⟩

/-- The loop of `skynet_mq_pop` ends with a threshold that the length does not exceed. -/
theorem le_raise_threshold {length n : Nat} (hn : length ≤ q.overloadThreshold + n)
    (hpos : 0 < q.overloadThreshold) :
    length ≤ (q.raise length n).overloadThreshold := by
  induction n generalizing q with
  | zero => exact hn
  | succ n ih =>
      rw [raise]
      split_ifs with hlt
      · exact ih (by dsimp only; omega) (by dsimp only; omega)
      · omega

theorem push_ring (hq : q.ring.Valid) :
    (q.push message).ring.Valid ∧ (q.push message).ring.toList = q.ring.toList ++ [message] := by
  have hgrow : q.ring.cap < q.ring.cap * 2 := by
    have hpos := hq.head_lt
    omega
  exact ⟨hq.push hgrow, hq.toList_push hgrow⟩

/-- **Popping.** The first message, or the flag is taken back. -/
theorem pop_spec (hq : q.ring.Valid) :
    (q.ring.toList = [] ∧ ∃ q', q.pop = (none, q') ∧ q'.ring = q.ring ∧ q'.release = q.release ∧
        q'.inGlobal = false) ∨
      ∃ message q', q.pop = (some message, q') ∧ q'.ring.Valid ∧ q.ring.toList =
      message :: q'.ring.toList ∧
        q'.release = q.release ∧ q'.inGlobal = q.inGlobal := by
  unfold MessageQueue.pop
  rcases hq.pop_eq with ⟨hempty, hnone⟩ | ⟨message, ring, hpop, hring, hlist⟩
  · rw [hnone]
    exact .inl ⟨hempty, _, rfl, rfl, rfl, rfl⟩
  · rw [hpop]
    obtain ⟨hraise, hrelease, hglobal⟩ := raise_eq ring.length ring.length { q with ring }
    exact .inr ⟨message, _, rfl, hraise ▸ hring, hraise ▸ hlist, hrelease, hglobal⟩

end Ring

end MessageQueue

/-- What concerns one service: `extra` are the references in the hand of the thread. -/
structure View where
  queue : Option MessageQueue
  created : Bool
  registered : Bool
  ref : Nat
  starting : Starting
  sends : Nat
  releases : Nat
  users : Nat
  extra : Nat
  owner : Owner
  pushed : List Message
  taken : List Message
  dropped : List Message

/-- The messages that wait in a queue. -/
def contents (queue : Option MessageQueue) : List Message :=
  (queue.map fun q => q.ring.toList).getD []

/-- The context is gone, and the queue waits to be dropped. -/
def Released (queue : Option MessageQueue) : Prop := ∃ q, queue = some q ∧ q.release = true

structure QueueOk (ref : Nat) (owner : Owner) (q : MessageQueue) : Prop where
  valid : q.ring.Valid
  dead : q.release = true ↔ ref = 0
  owned : owner ≠ .none ↔ q.inGlobal = true ∨ q.release = true
  quiet : q.inGlobal = false → q.release = false → q.ring.toList = []

structure View.Ok (v : View) : Prop where
  begun : v.starting ≠ .no ↔ v.owner = .starter
  refs : v.ref = v.registered.toNat + v.starting.share + v.sends + v.releases + v.users + v.extra
  queue : ∀ q, v.queue = some q → QueueOk v.ref v.owner q
  absent : v.queue = none → v.owner = .none ∧ v.ref = 0
  fresh : v.created = false → v.queue = none ∧ v.pushed = []
  fifo : v.pushed = v.taken ++ v.dropped ++ contents v.queue
  drops : v.ref ≠ 0 → v.dropped = []
  dropping : v.starting = .dropping → Released v.queue

namespace Node

/-- What a thread knows of the owners in the middle of an event. -/
structure Owners where
  owner : Handle → Owner := fun _ => .none
  users : Handle → Finset Worker := fun _ => ∅
  extra : Handle → Nat := fun _ => 0

def view (s : Node) (o : Owners) (h : Handle) : View where
  queue := s.queue h
  created := s.created h
  registered := s.registered h
  ref := s.ref h
  starting := s.starting h
  sends := (s.sends.map Prod.fst).count h
  releases := s.releases.count h
  users := (o.users h).card
  extra := o.extra h
  owner := o.owner h
  pushed := s.pushed h
  taken := s.taken h
  dropped := s.dropped h

structure Inv (s : Node) (o : Owners) : Prop where
  sound : s.failed = false
  nodup : s.global.Nodup
  linked : ∀ h, h ∈ s.global ↔ o.owner h = .global
  held : ∀ w h, h ∈ (s.workers w).queues ↔ o.owner h = .worker w
  distinct : ∀ w, (s.workers w).queues.Nodup
  users : ∀ w h, w ∈ o.users h ↔ (s.workers w).ctx = some h
  dropping : ∀ w h, s.workers w = .dropping h → Released (s.queue h)
  ok : ∀ h, (s.view o h).Ok

variable {s s' : Node} {o o' : Owners} {h h' : Handle} {w : Worker} {message : Message}
    {q : MessageQueue}

section Primitives

/-- A step that leaves the threads and the global list as they are, and concerns one service
only. -/
theorem Inv.local (hinv : s.Inv o) (hsound : s'.failed = false) (hglobal : s'.global = s.global)
    (hworkers : s'.workers = s.workers) (hframe : ∀ h', h' ≠ h → s'.view o' h' = s.view o h')
    (hlinked : o'.owner h = .global ↔ o.owner h = .global)
    (hheld : ∀ w, o'.owner h = .worker w ↔ o.owner h = .worker w) (husers : o'.users = o.users)
    (hreleased : ∀ w, o.owner h = .worker w → Released (s.queue h) → Released (s'.queue h))
    (hok : (s'.view o' h).Ok) : s'.Inv o' where
  sound := hsound
  nodup := by
    rw [hglobal]
    exact hinv.nodup
  linked h' := by
    rw [hglobal, hinv.linked h']
    by_cases heq : h' = h
    · rw [heq]
      exact hlinked.symm
    · rw [show o'.owner h' = o.owner h' from congrArg View.owner (hframe h' heq)]
  held w h' := by
    rw [hworkers, hinv.held w h']
    by_cases heq : h' = h
    · rw [heq]
      exact (hheld w).symm
    · rw [show o'.owner h' = o.owner h' from congrArg View.owner (hframe h' heq)]
  distinct w := by
    rw [hworkers]
    exact hinv.distinct w
  users w h' := by
    rw [hworkers, husers]
    exact hinv.users w h'
  dropping w h' hphase := by
    rw [hworkers] at hphase
    have hreleased' := hinv.dropping w h' hphase
    by_cases heq : h' = h
    · subst heq
      refine hreleased w ((hinv.held w h').mp ?_) hreleased'
      rw [hphase]
      exact List.mem_singleton_self _
    · rw [show s'.queue h' = s.queue h' from congrArg View.queue (hframe h' heq)]
      exact hreleased'
  ok h' := by
    by_cases heq : h' = h
    · rw [heq]
      exact hok
    · rw [hframe h' heq]
      exact hinv.ok h'

namespace Owners

/-- What becomes of the owners when a worker goes from a phase to another one: what it does not take
along is in the hand of the thread. -/
def goto (o : Owners) (w : Worker) (old new : Phase) : Owners where
  owner h := if h ∈ new.queues then .worker w else if h ∈ old.queues then .hand else o.owner h
  users h := if new.ctx = some h then insert w (o.users h) else (o.users h).erase w
  extra h := o.extra h + (if old.ctx = some h then 1 else 0) - if new.ctx = some h then 1 else 0

/-- Nothing is in the hand of the thread. -/
structure Settled (o : Owners) : Prop where
  owner : ∀ h, o.owner h ≠ .hand
  extra : ∀ h, o.extra h = 0

end Owners

theorem Inv.goto (hinv : s.Inv o) (w : Worker) (p : Phase)
    (hqueues : ∀ h ∈ p.queues, o.owner h = .worker w ∨ o.owner h = .hand)
    (hctx : ∀ h, p.ctx = some h → (s.workers w).ctx = some h ∨ o.extra h ≠ 0)
    (hdropping : ∀ h, p = .dropping h → Released (s.queue h)) (hdistinct : p.queues.Nodup) :
    (s.goto w p).Inv (o.goto w (s.workers w) p) := by
  have hworkers : ∀ w', (s.goto w p).workers w' = if w' = w then p else s.workers w' :=
    fun w' => Function.update_apply ..
  -- the owners that change are this worker and the hand of the thread
  have howner : ∀ h, (o.goto w (s.workers w) p).owner h = o.owner h ∨
      ((o.owner h = .worker w ∨ o.owner h = .hand) ∧
        ((o.goto w (s.workers w) p).owner h = .worker w ∨ (o.goto w (s.workers w) p).owner h =
            .hand)) := by
    intro h
    unfold Owners.goto
    dsimp only
    split_ifs with hnew hold
    · exact .inr ⟨hqueues h hnew, .inl rfl⟩
    · exact .inr ⟨.inl ((hinv.held w h).mp hold), .inr rfl⟩
    · exact .inl rfl
  have hsame : ∀ h x, x ≠ .hand → (∀ w, x ≠ .worker w) →
      ((o.goto w (s.workers w) p).owner h = x ↔ o.owner h = x) := by
    intro h x hhand hworker
    rcases howner h with heq | ⟨hold | hold, hnew | hnew⟩
    · rw [heq]
    · rw [hold, hnew]
    · rw [hold, hnew]
      exact iff_of_false hhand.symm (hworker w).symm
    · rw [hold, hnew]
      exact iff_of_false (hworker w).symm hhand.symm
    · rw [hold, hnew]
  refine ⟨hinv.sound, hinv.nodup, fun h => ?_, fun w' h => ?_, fun w' => ?_, fun w' h => ?_,
    fun w' h hphase => ?_,
    fun h => ?_⟩
  · exact (hinv.linked h).trans (hsame h _ Owner.noConfusion fun _ => Owner.noConfusion).symm
  · rw [hworkers]
    by_cases hw : w' = w
    · subst hw
      rw [if_pos rfl]
      constructor
      · exact fun hmem => if_pos hmem
      · intro howned
        by_contra hmem
        unfold Owners.goto at howned
        dsimp only at howned
        rw [if_neg hmem] at howned
        split_ifs at howned with hold
        exact hold ((hinv.held w' h).mpr howned)
    · rw [if_neg hw, hinv.held w' h]
      have hne : Owner.worker w ≠ .worker w' := fun heq => hw (Owner.worker.inj heq).symm
      rcases howner h with heq | ⟨hold | hold, hnew | hnew⟩
      · rw [heq]
      · rw [hold, hnew]
      · rw [hold, hnew]
        exact iff_of_false hne Owner.noConfusion
      · rw [hold, hnew]
        exact iff_of_false Owner.noConfusion hne
      · rw [hold, hnew]
  · rw [hworkers]
    split_ifs
    · exact hdistinct
    · exact hinv.distinct w'
  · rw [hworkers]
    unfold Owners.goto
    dsimp only
    by_cases hw : w' = w
    · subst hw
      rw [if_pos rfl]
      split_ifs with hnew
      · exact iff_of_true (Finset.mem_insert_self ..) hnew
      · exact iff_of_false (Finset.notMem_erase w' _) hnew
    · rw [if_neg hw, ← hinv.users w' h]
      split_ifs
      · rw [Finset.mem_insert, or_iff_right hw]
      · rw [Finset.mem_erase, and_iff_right hw]
  · rw [hworkers] at hphase
    split_ifs at hphase
    · exact hdropping h hphase
    · exact hinv.dropping w' h hphase
  · have hok := hinv.ok h
    have huser : w ∈ o.users h ↔ (s.workers w).ctx = some h := hinv.users w h
    have hrefs : ((o.goto w (s.workers w) p).users h).card + (o.goto w (s.workers w) p).extra h =
        (o.users h).card + o.extra h := by
      unfold Owners.goto
      dsimp only
      by_cases hold : (s.workers w).ctx = some h <;> by_cases hnew : p.ctx = some h
      · rw [if_pos hold, if_pos hnew, if_pos hnew, Finset.insert_eq_of_mem (huser.mpr hold),
          Nat.add_sub_cancel]
      · have hcard := Finset.card_erase_add_one (huser.mpr hold)
        rw [if_pos hold, if_neg hnew, if_neg hnew]
        omega
      · have hextra := (hctx h hnew).resolve_left hold
        rw [if_neg hold, if_pos hnew, if_pos hnew, Finset.card_insert_of_notMem
          fun hmem => hold (huser.mp hmem)]
        omega
      · rw [if_neg hold, if_neg hnew, if_neg hnew,
          Finset.erase_eq_of_notMem fun hmem => hold (huser.mp hmem)]
        rfl
    have hnone := hsame h .none Owner.noConfusion fun _ => Owner.noConfusion
    refine { hok with begun := ?_, refs := ?_, queue := fun q hq => ?_, absent := fun hq => ?_ }
    · exact hok.begun.trans (hsame h _ Owner.noConfusion fun _ => Owner.noConfusion).symm
    · have hsum := hok.refs
      change s.ref h = (s.registered h).toNat + (s.starting h).share + _ + _ + (o.users h).card +
        o.extra h at hsum
      change s.ref h = (s.registered h).toNat + (s.starting h).share + _ + _ +
        ((o.goto w (s.workers w) p).users h).card + (o.goto w (s.workers w) p).extra h
      rw [Nat.add_assoc, hrefs, ← Nat.add_assoc]
      exact hsum
    · have hqueue := hok.queue q hq
      exact { hqueue with owned := (not_congr hnone).trans hqueue.owned }
    · exact ⟨hnone.mpr (hok.absent hq).1, (hok.absent hq).2⟩

theorem Inv.refs (hinv : s.Inv o) (h : Handle) :
    s.ref h = (s.registered h).toNat + (s.starting h).share + (s.sends.map Prod.fst).count h +
    s.releases.count h +
      (o.users h).card + o.extra h := (hinv.ok h).refs

theorem Inv.registered_ref (hinv : s.Inv o) (h : Handle) (hregistered : s.registered h = true) :
    s.ref h ≠ 0 := by
  have hrefs := hinv.refs h
  rw [hregistered, Bool.toNat_true] at hrefs
  omega

theorem Inv.extra_ref (hinv : s.Inv o) (h : Handle) (hextra : o.extra h ≠ 0) : s.ref h ≠ 0 := by
  have hrefs := hinv.refs h
  omega

/-- A context that is referred to has its queue. -/
theorem Inv.alive (hinv : s.Inv o) (h : Handle) (href : s.ref h ≠ 0) :
    ∃ q, s.queue h = some q ∧ QueueOk (s.ref h) (o.owner h) q ∧ q.release = false := by
  cases hq : s.queue h with
  | none => exact absurd ((hinv.ok h).absent hq).2 href
  | some q =>
      have hqueue := (hinv.ok h).queue q hq
      exact ⟨q, rfl, hqueue, Bool.eq_false_iff.mpr fun hrelease => href (hqueue.dead.mp hrelease)⟩

/-- A queue that someone has is there. -/
theorem Inv.owned (hinv : s.Inv o) (h : Handle) (howner : o.owner h ≠ .none) :
    ∃ q, s.queue h = some q ∧ QueueOk (s.ref h) (o.owner h) q := by
  cases hq : s.queue h with
  | none => exact absurd ((hinv.ok h).absent hq).1 howner
  | some q => exact ⟨q, rfl, (hinv.ok h).queue q hq⟩

theorem Inv.setStarting (hinv : s.Inv o) (h : Handle) (st : Starting) (hstart : s.starting h ≠ .no)
    (hshare : st.share ≤ (s.starting h).share + o.extra h)
    (hdropping : st = .dropping → Released (s.queue h)) :
    (s.setStarting h st).Inv { o with
      owner := Function.update o.owner h (if st = .no then .hand else .starter)
      extra := Function.update o.extra h ((s.starting h).share + o.extra h - st.share) } := by
  have hok := hinv.ok h
  have howner : o.owner h = .starter := hok.begun.mp hstart
  set o' : Owners := { o with
    owner := Function.update o.owner h (if st = .no then .hand else .starter)
    extra := Function.update o.extra h ((s.starting h).share + o.extra h - st.share) } with ho'
  have hself : o'.owner h = .hand ∧ st = .no ∨ o'.owner h = .starter ∧ st ≠ .no := by
    change Function.update o.owner h _ h = .hand ∧ _ ∨ Function.update o.owner h _ h = .starter ∧ _
    rw [Function.update_self]
    by_cases hno : st = .no
    · exact .inl ⟨if_pos hno, hno⟩
    · exact .inr ⟨if_neg hno, hno⟩
  have hkept : ∀ x, x ≠ .hand → x ≠ .starter → (o'.owner h = x ↔ o.owner h = x) := by
    intro x hhand hstarter
    rw [howner]
    rcases hself with ⟨hself, -⟩ | ⟨hself, -⟩
    · rw [hself]
      exact iff_of_false hhand.symm hstarter.symm
    · rw [hself]
  have hview : (s.setStarting h st).view o' h =
      { s.view o h with
        starting := st, owner :=
          o'.owner h, extra := (s.starting h).share + o.extra h - st.share } := by
    simp [view, Node.setStarting, ho']
  refine hinv.local (h := h) hinv.sound rfl rfl (fun h' hne => ?_)
    (hkept _ Owner.noConfusion Owner.noConfusion)
    (fun w => hkept _ Owner.noConfusion Owner.noConfusion) rfl (fun w _ hreleased => hreleased) ?_
  · simp [view, Node.setStarting, ho', Function.update_of_ne hne]
  · rw [hview]
    refine { hok with
      begun := ?_, refs := ?_, queue := fun q hq => ?_, absent := fun hq => ?_, dropping :=
        hdropping }
    · change st ≠ .no ↔ o'.owner h = .starter
      rcases hself with ⟨hself, hno⟩ | ⟨hself, hno⟩
      · rw [hself]
        exact iff_of_false (not_not.mpr hno) Owner.noConfusion
      · exact iff_of_true hno hself
    · have hrefs := hinv.refs h
      change s.ref h = (s.registered h).toNat + st.share +
        (s.sends.map Prod.fst).count h + s.releases.count h +
        (o.users h).card + ((s.starting h).share + o.extra h - st.share)
      omega
    · have hqueue := hok.queue q hq
      exact { hqueue with owned :=
        (not_congr (hkept _ Owner.noConfusion Owner.noConfusion)).trans hqueue.owned }
    · have habsent : o.owner h = .none := (hok.absent hq).1
      rw [howner] at habsent
      cases habsent

/-- Linking a queue that is in the hand of the thread. -/
theorem Inv.globalmqPush (hinv : s.Inv o) (h : Handle) (hhand : o.owner h = .hand) :
    (s.globalmqPush h).Inv { o with owner := Function.update o.owner h .global } := by
  have hnew : h ∉ s.global := fun hmem => by
    have howner := (hinv.linked h).mp hmem
    rw [hhand] at howner
    cases howner
  have hpush : s.globalmqPush h = { s with global := s.global ++ [h] } := if_neg hnew
  rw [hpush]
  refine ⟨hinv.sound, ?_, fun h' => ?_, fun w h' => ?_, hinv.distinct, hinv.users, hinv.dropping,
    fun h' => ?_⟩
  · exact List.Nodup.append hinv.nodup (List.nodup_singleton h) (List.disjoint_singleton.mpr hnew)
  · change h' ∈ s.global ++ [h] ↔ Function.update o.owner h .global h' = .global
    rw [List.mem_append, List.mem_singleton, hinv.linked h']
    by_cases heq : h' = h
    · rw [heq, Function.update_self]
      exact iff_of_true (.inr rfl) rfl
    · rw [Function.update_of_ne heq]
      exact or_iff_left heq
  · refine (hinv.held w h').trans ?_
    change _ ↔ Function.update o.owner h .global h' = .worker w
    by_cases heq : h' = h
    · rw [heq, Function.update_self, hhand]
      exact iff_of_false Owner.noConfusion Owner.noConfusion
    · rw [Function.update_of_ne heq]
  · have hok := hinv.ok h'
    by_cases heq : h' = h
    · subst heq
      have hself : Function.update o.owner h' .global h' = .global := Function.update_self ..
      have hhand' : (s.view o h').owner = .hand := hhand
      refine { hok with begun := ?_, queue := fun q hq => ?_, absent := fun hq => ?_ }
      · refine hok.begun.trans ?_
        rw [hhand']
        change _ ↔ Function.update o.owner h' .global h' = .starter
        rw [hself]
        exact iff_of_false Owner.noConfusion Owner.noConfusion
      · have hqueue := hok.queue q hq
        refine { hqueue with owned := ?_ }
        change Function.update o.owner h' .global h' ≠ .none ↔ _
        rw [hself, ← hqueue.owned, hhand']
        exact iff_of_true Owner.noConfusion Owner.noConfusion
      · have habsent := (hok.absent hq).1
        rw [hhand'] at habsent
        cases habsent
    · have hview : (({ s with global := s.global ++ [h] } : Node).view
          { o with owner := Function.update o.owner h .global } h') = s.view o h' := by
        simp [view, Function.update_of_ne heq]
      rw [hview]
      exact hok

/-- The first queue of the global list comes into the hand of the thread. -/
theorem Inv.pop_global (hinv : s.Inv o) {global : List Handle} (hglobal : s.global = h :: global) :
    ({ s with global } : Node).Inv { o with owner := Function.update o.owner h .hand } := by
  have hnodup := hinv.nodup
  rw [hglobal, List.nodup_cons] at hnodup
  have howner : o.owner h = .global :=
    (hinv.linked h).mp (by rw [hglobal]; exact List.mem_cons_self)
  refine ⟨hinv.sound, hnodup.2, fun h' => ?_, fun w h' => ?_, hinv.distinct, hinv.users,
    hinv.dropping, fun h' => ?_⟩
  · change h' ∈ global ↔ Function.update o.owner h .hand h' = .global
    by_cases heq : h' = h
    · rw [heq, Function.update_self]
      exact iff_of_false hnodup.1 Owner.noConfusion
    · rw [Function.update_of_ne heq, ← hinv.linked h', hglobal, List.mem_cons]
      exact (or_iff_right heq).symm
  · refine (hinv.held w h').trans ?_
    change _ ↔ Function.update o.owner h .hand h' = .worker w
    by_cases heq : h' = h
    · rw [heq, Function.update_self, howner]
      exact iff_of_false Owner.noConfusion Owner.noConfusion
    · rw [Function.update_of_ne heq]
  · have hok := hinv.ok h'
    by_cases heq : h' = h
    · subst heq
      have hself : Function.update o.owner h' .hand h' = .hand := Function.update_self ..
      have howner' : (s.view o h').owner = .global := howner
      refine { hok with begun := ?_, queue := fun q hq => ?_, absent := fun hq => ?_ }
      · refine hok.begun.trans ?_
        rw [howner']
        change _ ↔ Function.update o.owner h' .hand h' = .starter
        rw [hself]
        exact iff_of_false Owner.noConfusion Owner.noConfusion
      · have hqueue := hok.queue q hq
        refine { hqueue with owned := ?_ }
        change Function.update o.owner h' .hand h' ≠ .none ↔ _
        rw [hself, ← hqueue.owned, howner']
        exact iff_of_true Owner.noConfusion Owner.noConfusion
      · have habsent := (hok.absent hq).1
        rw [howner'] at habsent
        cases habsent
    · have hview :
          (({ s with global } : Node).view { o with owner := Function.update o.owner h .hand } h') =
          s.view o h' := by
        simp [view, Function.update_of_ne heq]
      rw [hview]
      exact hok

/-- References go from the hand of the thread to their new owners and back. -/
theorem Inv.share (hinv : s.Inv o) (h : Handle) (registered : Bool)
    (sends : List (Handle × Message))
    (releases : List Handle) (extra : Nat)
    (hsends : ∀ h', h' ≠ h → (sends.map Prod.fst).count h' = (s.sends.map Prod.fst).count h')
    (hreleases : ∀ h', h' ≠ h → releases.count h' = s.releases.count h')
    (hsum : registered.toNat + (sends.map Prod.fst).count h + releases.count h + extra =
      (s.registered h).toNat + (s.sends.map Prod.fst).count h + s.releases.count h + o.extra h) :
    ({ s with registered := Function.update s.registered h registered, sends, releases } : Node).Inv
      { o with extra := Function.update o.extra h extra } := by
  have hview : ({ s with registered := Function.update s.registered h registered, sends, releases
      } : Node).view
      { o with extra := Function.update o.extra h extra } h =
        { s.view o h with
          registered, sends :=
            (sends.map Prod.fst).count h, releases := releases.count h, extra } := by
    simp [view]
  refine hinv.local (h := h) hinv.sound rfl rfl (fun h' hne => ?_) Iff.rfl (fun _ => Iff.rfl) rfl
    (fun _ _ hreleased => hreleased) ?_
  · simp [view, Function.update_of_ne hne, hsends h' hne, hreleases h' hne]
  · rw [hview]
    refine { hinv.ok h with refs := ?_ }
    have hrefs := hinv.refs h
    change s.ref h = registered.toNat + (s.starting h).share + (sends.map Prod.fst).count h +
      releases.count h +
      (o.users h).card + extra
    omega

/-- A new reference to a context that the handle table has. -/
theorem Inv.refer (hinv : s.Inv o) (h : Handle) (hregistered : s.registered h = true) :
    ({ s with ref := Function.update s.ref h (s.ref h + 1) } : Node).Inv
      { o with extra := Function.update o.extra h (o.extra h + 1) } := by
  have hview : ({ s with ref := Function.update s.ref h (s.ref h + 1) } : Node).view
      { o with extra := Function.update o.extra h (o.extra h + 1) } h =
        { s.view o h with ref := s.ref h + 1, extra := o.extra h + 1 } := by
    simp [view]
  have href := hinv.registered_ref h hregistered
  refine hinv.local (h := h) hinv.sound rfl rfl (fun h' hne => ?_) Iff.rfl (fun _ => Iff.rfl) rfl
    (fun _ _ hreleased => hreleased) ?_
  · simp [view, Function.update_of_ne hne]
  · rw [hview]
    have hok := hinv.ok h
    refine { hok with refs := ?_, queue :=
      fun q hq => ?_, absent := fun hq => ?_, drops := fun _ => hok.drops href }
    · have hrefs := hinv.refs h
      change s.ref h +
        1 = (s.registered h).toNat + (s.starting h).share + (s.sends.map Prod.fst).count h +
        s.releases.count h + (o.users h).card + (o.extra h + 1)
      omega
    · have hqueue := hok.queue q hq
      exact { hqueue with dead := hqueue.dead.trans (iff_of_false href (Nat.succ_ne_zero _)) }
    · exact absurd (hok.absent hq).2 href

theorem contextRelease_eq (hq : s.queue h = some q) (hrelease : q.release = false) :
    s.contextRelease h =
      if s.ref h - 1 = 0 then
        if q.inGlobal then
          { s with
            ref := Function.update s.ref h (s.ref h - 1)
            queue := Function.update s.queue h (some { q with release := true }) }
        else
          { s with
            ref := Function.update s.ref h (s.ref h - 1)
            queue := Function.update s.queue h (some { q with release := true }) }.globalmqPush h
      else { s with ref := Function.update s.ref h (s.ref h - 1) } := by
  simp [Node.contextRelease, Node.mqMarkRelease, Node.setQueue, hq, hrelease]

/-- **Giving a context back.** With the last reference its queue is marked, and linked unless
someone has it. -/
theorem Inv.contextRelease (hinv : s.Inv o) (h : Handle) (hextra : o.extra h ≠ 0) :
    ∃ owner, (s.contextRelease h).Inv
    { o with owner, extra := Function.update o.extra h (o.extra h - 1) } ∧
      ∀ h', o.owner h' ≠ .hand → owner h' ≠ .hand := by
  obtain ⟨q, hq, hqueue, hrelease⟩ := hinv.alive h (hinv.extra_ref h hextra)
  have hok := hinv.ok h
  have hrefs := hinv.refs h
  rw [contextRelease_eq hq hrelease]
  by_cases hlast : s.ref h - 1 = 0
  · rw [if_pos hlast]
    set s' : Node := { s with
      ref := Function.update s.ref h (s.ref h - 1)
      queue := Function.update s.queue h (some { q with release := true }) } with hs'
    set owner := Function.update o.owner h (if q.inGlobal then o.owner h else .hand) with howner
    have hself : owner h = if q.inGlobal then o.owner h else .hand := Function.update_self ..
    have howned : q.inGlobal = true ↔ o.owner h ≠ .none := by
      rw [hqueue.owned, hrelease]
      simp
    have hkept : ∀ x, x ≠ .hand → x ≠ .none → (owner h = x ↔ o.owner h = x) := by
      intro x hhand hnone
      rw [hself]
      by_cases hglobal : q.inGlobal = true
      · rw [if_pos hglobal]
      · rw [if_neg hglobal, not_not.mp (hglobal ∘ howned.mpr)]
        exact iff_of_false hhand.symm hnone.symm
    have hview : s'.view { o with owner, extra := Function.update o.extra h (o.extra h - 1) } h =
        { s.view o h with
          ref := s.ref h - 1, queue := some { q with release := true }, owner := owner h, extra :=
            o.extra h - 1 } := by
      simp [view, hs']
    have hmarked : s'.Inv { o with owner, extra := Function.update o.extra h (o.extra h - 1) } := by
      refine hinv.local (h := h) hinv.sound rfl rfl (fun h' hne => ?_)
        (hkept _ Owner.noConfusion Owner.noConfusion)
        (fun w => hkept _ Owner.noConfusion Owner.noConfusion) rfl (fun w _ _ => ?_) ?_
      · simp [view, hs', howner, Function.update_of_ne hne]
      · exact ⟨_, Function.update_self .., rfl⟩
      · rw [hview]
        refine ⟨?_, ?_, fun q' hq' => ?_, (fun habsent => by cases habsent), fun hcreated => ?_, ?_,
          fun hne => ?_,
          fun _ => ⟨_, rfl, rfl⟩⟩
        · exact hok.begun.trans (hkept _ Owner.noConfusion Owner.noConfusion).symm
        · change s.ref h - 1 = (s.registered h).toNat + (s.starting h).share +
            (s.sends.map Prod.fst).count h +
            s.releases.count h + (o.users h).card + (o.extra h - 1)
          omega
        · obtain rfl := Option.some.inj hq'
          refine ⟨hqueue.valid, iff_of_true rfl hlast, iff_of_true ?_ (.inr rfl),
            (fun _ hfalse => by cases hfalse)⟩
          change owner h ≠ .none
          rw [hself]
          by_cases hglobal : q.inGlobal = true
          · rw [if_pos hglobal]
            exact howned.mp hglobal
          · rw [if_neg hglobal]
            exact Owner.noConfusion
        · have hfresh : s.queue h = none := (hok.fresh hcreated).1
          rw [hq] at hfresh
          cases hfresh
        · have hfifo := hok.fifo
          rw [show (s.view o h).queue = some q from hq] at hfifo
          exact hfifo
        · exact absurd hlast hne
    by_cases hglobal : q.inGlobal = true
    · have hsame : owner = o.owner := by
        rw [howner, if_pos hglobal, Function.update_eq_self]
      rw [hsame] at hmarked
      refine ⟨o.owner, ?_, fun _ hne => hne⟩
      rw [if_pos hglobal]
      exact hmarked
    · refine ⟨Function.update owner h .global, ?_, fun h' hne => ?_⟩
      · rw [if_neg hglobal]
        exact hmarked.globalmqPush h (by change owner h = .hand; rw [hself, if_neg hglobal])
      · by_cases heq : h' = h
        · rw [heq, Function.update_self]
          exact Owner.noConfusion
        · rw [Function.update_of_ne heq, howner, Function.update_of_ne heq]
          exact hne
  · rw [if_neg hlast]
    refine ⟨o.owner, ?_, fun _ hne => hne⟩
    have hview : ({ s with ref := Function.update s.ref h (s.ref h - 1) } : Node).view
        { o with extra := Function.update o.extra h (o.extra h - 1) } h =
          { s.view o h with ref := s.ref h - 1, extra := o.extra h - 1 } := by
      simp [view]
    refine hinv.local (h := h) hinv.sound rfl rfl (fun h' hne => ?_) Iff.rfl (fun _ => Iff.rfl) rfl
      (fun _ _ hreleased => hreleased) ?_
    · simp [view, Function.update_of_ne hne]
    · rw [hview]
      have hpos : s.ref h ≠ 0 := by omega
      refine { hok with
        refs := ?_, queue := fun q' hq' => ?_, absent := fun hq' => absurd (hok.absent hq').2 hpos
        drops := fun _ => hok.drops hpos }
      · change s.ref h - 1 = (s.registered h).toNat + (s.starting h).share +
          (s.sends.map Prod.fst).count h +
          s.releases.count h + (o.users h).card + (o.extra h - 1)
        omega
      · have hqueue' := hok.queue q' hq'
        exact { hqueue' with dead := hqueue'.dead.trans (iff_of_false hpos hlast) }

/-- Something happens to the messages of a queue. -/
theorem Inv.setContents (hinv : s.Inv o) (hq : s.queue h = some q) (q' : MessageQueue)
    (owner : Owner)
    (pushed taken dropped : List Message) (hrelease : q'.release = q.release)
    (hvalid : q'.ring.Valid)
    (howned : owner ≠ .none ↔ q'.inGlobal = true ∨ q'.release = true)
    (hquiet : q'.inGlobal = false → q'.release = false → q'.ring.toList = [])
    (hkept : ∀ x, x ≠ .hand → x ≠ .none → (owner = x ↔ o.owner h = x))
    (hfifo : pushed = taken ++ dropped ++ q'.ring.toList) (hdrops : s.ref h ≠ 0 → dropped = []) :
    ({ s with
      queue := Function.update s.queue h (some q')
      pushed := Function.update s.pushed h pushed
      taken := Function.update s.taken h taken
      dropped := Function.update s.dropped h dropped } : Node).Inv
        { o with owner := Function.update o.owner h owner } := by
  have hok := hinv.ok h
  have hqueue := hok.queue q hq
  have hview : ({ s with
      queue := Function.update s.queue h (some q')
      pushed := Function.update s.pushed h pushed
      taken := Function.update s.taken h taken
      dropped := Function.update s.dropped h dropped } : Node).view
        { o with owner := Function.update o.owner h owner } h =
          { s.view o h with queue := some q', owner, pushed, taken, dropped } := by
    simp [view]
  have hself : Function.update o.owner h owner h = owner := Function.update_self ..
  refine hinv.local (h := h) hinv.sound rfl rfl (fun h' hne => ?_) ?_ (fun w => ?_)
    rfl (fun w _ hreleased => ?_) ?_
  · simp [view, Function.update_of_ne hne]
  · change Function.update o.owner h owner h = .global ↔ _
    rw [hself]
    exact hkept _ Owner.noConfusion Owner.noConfusion
  · change Function.update o.owner h owner h = .worker w ↔ _
    rw [hself]
    exact hkept _ Owner.noConfusion Owner.noConfusion
  · obtain ⟨q'', hq'', hreleased⟩ := hreleased
    obtain rfl := Option.some.inj (hq.symm.trans hq'')
    exact ⟨q', Function.update_self .., hrelease.trans hreleased⟩
  · rw [hview]
    refine ⟨hok.begun.trans (hkept _ Owner.noConfusion Owner.noConfusion).symm, hok.refs,
      fun q'' hq'' => ?_,
      (fun habsent => by cases habsent), fun hcreated => ?_, hfifo, hdrops, fun hdropping => ?_⟩
    · obtain rfl := Option.some.inj hq''
      exact ⟨hvalid, hrelease ▸ hqueue.dead, howned, hquiet⟩
    · have hfresh : s.queue h = none := (hok.fresh hcreated).1
      rw [hq] at hfresh
      cases hfresh
    · obtain ⟨q'', hq'', hreleased⟩ := hok.dropping hdropping
      obtain rfl := Option.some.inj (hq.symm.trans hq'')
      exact ⟨q', rfl, hrelease.trans hreleased⟩

theorem Inv.fifo (hinv : s.Inv o) (hq : s.queue h = some q) :
    s.pushed h = s.taken h ++ s.dropped h ++ q.ring.toList := by
  have hfifo := (hinv.ok h).fifo
  rw [show (s.view o h).queue = some q from hq] at hfifo
  exact hfifo

/-- A queue that has been dropped is freed. -/
theorem Inv.free (hinv : s.Inv o) (hq : s.queue h = some q) (hhand : o.owner h = .hand)
    (hreleased : q.release = true)
    (hempty : q.ring.toList = []) :
    (s.setQueue h none).Inv { o with owner := Function.update o.owner h .none } := by
  have hok := hinv.ok h
  have hqueue := hok.queue q hq
  have hview : (s.setQueue h none).view { o with owner := Function.update o.owner h .none } h =
      { s.view o h with queue := none, owner := .none } := by
    simp [view, Node.setQueue]
  have hkept : ∀ x, x ≠ .hand → x ≠ .none →
      (Function.update o.owner h .none h = x ↔ o.owner h = x) := by
    intro x hxhand hxnone
    rw [Function.update_self, hhand]
    exact iff_of_false hxnone.symm hxhand.symm
  refine hinv.local (h := h) hinv.sound rfl rfl (fun h' hne => ?_)
    (hkept _ Owner.noConfusion Owner.noConfusion)
    (fun w => hkept _ Owner.noConfusion Owner.noConfusion) rfl (fun w howner _ => ?_) ?_
  · simp [view, Node.setQueue, Function.update_of_ne hne]
  · rw [hhand] at howner
    cases howner
  · rw [hview]
    have hstarter : ¬s.starting h ≠ .no := fun hne => by
      have howner : o.owner h = .starter := hok.begun.mp hne
      rw [hhand] at howner
      cases howner
    refine { hok with
      begun := iff_of_false hstarter Owner.noConfusion, queue := fun q' hq' => by cases hq'
      absent := fun _ => ⟨rfl, hqueue.dead.mp hreleased⟩, fresh :=
        fun hcreated => ⟨rfl, (hok.fresh hcreated).2⟩
      fifo := ?_, dropping := fun hdropping => absurd ?_ hstarter }
    · change s.pushed h = s.taken h ++ s.dropped h ++ []
      rw [hinv.fifo hq, hempty]
    · change s.starting h = .dropping at hdropping
      rw [hdropping]
      exact Starting.noConfusion

end Primitives

section Commute

theorem globalmqPush_setStarting (s : Node) (h h' : Handle) (st : Starting) :
    (s.globalmqPush h).setStarting h' st = (s.setStarting h' st).globalmqPush h := by
  unfold Node.globalmqPush Node.setStarting Node.fail
  dsimp only
  split_ifs <;> rfl

theorem globalmqPush_goto (s : Node) (h : Handle) (w : Worker) (p : Phase) :
    (s.globalmqPush h).goto w p = (s.goto w p).globalmqPush h := by
  unfold Node.globalmqPush Node.goto Node.fail
  dsimp only
  split_ifs <;> rfl

theorem mqMarkRelease_setStarting (s : Node) (h h' : Handle) (st : Starting) :
    (s.mqMarkRelease h).setStarting h' st = (s.setStarting h' st).mqMarkRelease h := by
  have hqueue : (s.setStarting h' st).queue h = s.queue h := rfl
  unfold Node.mqMarkRelease
  rw [hqueue]
  cases s.queue h with
  | none => rfl
  | some q =>
      dsimp only
      split_ifs
      · rfl
      · rfl
      · exact globalmqPush_setStarting ..

theorem mqMarkRelease_goto (s : Node) (h : Handle) (w : Worker) (p : Phase) :
    (s.mqMarkRelease h).goto w p = (s.goto w p).mqMarkRelease h := by
  have hqueue : (s.goto w p).queue h = s.queue h := rfl
  unfold Node.mqMarkRelease
  rw [hqueue]
  cases s.queue h with
  | none => rfl
  | some q =>
      dsimp only
      split_ifs
      · rfl
      · rfl
      · exact globalmqPush_goto ..

theorem contextRelease_setStarting (s : Node) (h h' : Handle) (st : Starting) :
    (s.contextRelease h).setStarting h' st = (s.setStarting h' st).contextRelease h := by
  unfold Node.contextRelease
  exact (apply_ite (fun s => Node.setStarting s h' st) _ _ _).trans
    (if_congr Iff.rfl (mqMarkRelease_setStarting ..) rfl)

theorem contextRelease_goto (s : Node) (h : Handle) (w : Worker) (p : Phase) :
    (s.contextRelease h).goto w p = (s.goto w p).contextRelease h := by
  unfold Node.contextRelease
  exact (apply_ite (fun s => Node.goto s w p) _ _ _).trans
    (if_congr Iff.rfl (mqMarkRelease_goto ..) rfl)

end Commute

end Node

end SdyServer.Scheduler
