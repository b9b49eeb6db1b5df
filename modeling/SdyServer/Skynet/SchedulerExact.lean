import SdyServer.Skynet.SchedulerInv

/-!
# Every message once, in order

However the threads interleave, no queue is linked twice, taken by two workers or used after it was
freed. So the messages of a service are taken one after the other in the order in which they were
pushed, a service that has messages is always on its way to a worker, and what is not taken is
dropped with the queue.
-/

namespace SdyServer.Scheduler.Node

variable {s : Node} {o : Owners} {h h' : Handle} {w : Worker} {message : Message} {q : MessageQueue}

/-- Between two events everything has an owner. -/
def Good (s : Node) : Prop := ∃ o, s.Inv o ∧ o.Settled

section Events

theorem Inv.good_contextRelease (hinv : s.Inv o) (h : Handle) (hhand : ∀ h', o.owner h' ≠ .hand)
    (hextra : ∀ h', o.extra h' = if h' = h then 1 else 0) : (s.contextRelease h).Good := by
  have hself : o.extra h = 1 := by rw [hextra h, if_pos rfl]
  obtain ⟨owner, hreleased, howner⟩ := hinv.contextRelease h (by rw [hself]; exact Nat.one_ne_zero)
  refine ⟨_, hreleased, fun h' => howner h' (hhand h'), fun h' => ?_⟩
  change Function.update o.extra h (o.extra h - 1) h' = 0
  by_cases heq : h' = h
  · rw [heq, Function.update_self, hself]
  · rw [Function.update_of_ne heq, hextra h', if_neg heq]

theorem Inv.good_globalmqPush (hinv : s.Inv o) (h : Handle)
    (hhand : ∀ h', o.owner h' = .hand ↔ h' = h)
    (hextra : ∀ h', o.extra h' = 0) : (s.globalmqPush h).Good := by
  refine ⟨_, hinv.globalmqPush h ((hhand h).mpr rfl), fun h' => ?_, hextra⟩
  change Function.update o.owner h .global h' ≠ .hand
  by_cases heq : h' = h
  · rw [heq, Function.update_self]
    exact Owner.noConfusion
  · rw [Function.update_of_ne heq, ne_eq, hhand h']
    exact heq

theorem good_create (hinv : s.Inv o) (ho : o.Settled) (hfresh : s.created h = false) :
    (s.create h).Good := by
  have hok := hinv.ok h
  obtain ⟨hnone, hpushed⟩ := hok.fresh hfresh
  obtain ⟨howner, href⟩ := hok.absent hnone
  have hrefs := hinv.refs h
  change s.queue h = none at hnone
  change s.pushed h = [] at hpushed
  change o.owner h = .none at howner
  change s.ref h = 0 at href
  have hfifo : s.pushed h = s.taken h ++ s.dropped h ++ contents (s.queue h) := hok.fifo
  rw [hpushed, eq_comm, List.append_eq_nil_iff, List.append_eq_nil_iff] at hfifo
  have hself : Function.update o.owner h .starter h = .starter := Function.update_self ..
  have hview : (s.create h).view { o with owner := Function.update o.owner h .starter } h =
      { s.view o h with
        queue := some {}, created := true, registered := true, ref := 2, starting := .init, owner :=
          .starter } := by
    simp [view, Node.create, Node.setQueue]
  refine ⟨{ o with owner := Function.update o.owner h .starter }, ?_, fun h' => ?_, ho.extra⟩
  · refine hinv.local (h := h) hinv.sound rfl rfl (fun h' hne => ?_) ?_
      (fun w => ?_) rfl (fun w howned _ => ?_) ?_
    · simp [view, Node.create, Node.setQueue, Function.update_of_ne hne]
    · change Function.update o.owner h .starter h = .global ↔ _
      rw [hself, howner]
      exact iff_of_false Owner.noConfusion Owner.noConfusion
    · change Function.update o.owner h .starter h = .worker w ↔ _
      rw [hself, howner]
      exact iff_of_false Owner.noConfusion Owner.noConfusion
    · rw [howner] at howned
      cases howned
    · rw [hview]
      refine ⟨iff_of_true Starting.noConfusion rfl, ?_, fun q hq => ?_,
        (fun habsent => by cases habsent),
        (fun hcreated => by cases hcreated), ?_, fun _ => hfifo.1.2,
          (fun hdropping => by cases hdropping)⟩
      · change 2 = 1 + 1 + (s.sends.map Prod.fst).count h + s.releases.count h +
          (o.users h).card + o.extra h
        omega
      · obtain rfl := Option.some.inj hq
        refine ⟨⟨by decide, by decide⟩, iff_of_false Bool.false_ne_true (show ¬2 = 0 by decide),
          iff_of_true Owner.noConfusion
          (.inl rfl), (fun hglobal => by cases hglobal)⟩
      · change s.pushed h = s.taken h ++ s.dropped h ++ []
        rw [hpushed, hfifo.1.1, hfifo.1.2]
        rfl
  · change Function.update o.owner h .starter h' ≠ .hand
    by_cases heq : h' = h
    · rw [heq, hself]
      exact Owner.noConfusion
    · rw [Function.update_of_ne heq]
      exact ho.owner h'

/-- The owners when `skynet_context_new` goes on with something else than its end. -/
theorem Inv.start_on (hinv : s.Inv o) (ho : o.Settled) (st : Starting) (hstart : s.starting h ≠ .no)
    (hst : st ≠ .no) (hshare : st.share = (s.starting h).share)
    (hdropping : st = .dropping → Released (s.queue h)) :
    (s.setStarting h st).Good := by
  refine ⟨_, hinv.setStarting h st hstart (by omega) hdropping, fun h' => ?_, fun h' => ?_⟩
  · change Function.update o.owner h _ h' ≠ .hand
    by_cases heq : h' = h
    · rw [heq, Function.update_self, if_neg hst]
      exact Owner.noConfusion
    · rw [Function.update_of_ne heq]
      exact ho.owner h'
  · change Function.update o.extra h _ h' = 0
    by_cases heq : h' = h
    · rw [heq, Function.update_self, ho.extra h, hshare]
      omega
    · rw [Function.update_of_ne heq, ho.extra h']

/-- `skynet_context_new` gives a reference back. -/
theorem Inv.start_release (hinv : s.Inv o) (ho : o.Settled) (st : Starting) (hst : st ≠ .no)
    (hshare : st.share = 0)
    (hone : (s.starting h).share = 1) (hdropping : st ≠ .dropping) :
    ((s.contextRelease h).setStarting h st).Good := by
  have hstart : s.starting h ≠ .no := fun hno => by
    rw [hno] at hone
    cases hone
  rw [contextRelease_setStarting]
  refine (hinv.setStarting h st hstart (by omega)
    fun hdrop => absurd hdrop hdropping).good_contextRelease h
    (fun h' => ?_) fun h' => ?_
  · change Function.update o.owner h _ h' ≠ .hand
    by_cases heq : h' = h
    · rw [heq, Function.update_self, if_neg hst]
      exact Owner.noConfusion
    · rw [Function.update_of_ne heq]
      exact ho.owner h'
  · change Function.update o.extra h _ h' = _
    by_cases heq : h' = h
    · rw [heq, Function.update_self, ho.extra h, hshare, hone, if_pos rfl]
    · rw [Function.update_of_ne heq, ho.extra h', if_neg heq]

/-- `skynet_context_new` links the queue and is at its end. -/
theorem Inv.start_link (hinv : s.Inv o) (ho : o.Settled) (hstart : s.starting h ≠ .no)
    (hshare : (s.starting h).share = 0) : ((s.globalmqPush h).setStarting h .no).Good := by
  rw [globalmqPush_setStarting]
  refine (hinv.setStarting h .no hstart
    (by rw [hshare]; exact Nat.zero_le _) Starting.noConfusion).good_globalmqPush h
    (fun h' => ?_) fun h' => ?_
  · change Function.update o.owner h _ h' = .hand ↔ _
    by_cases heq : h' = h
    · rw [heq, Function.update_self, if_pos rfl]
      exact iff_of_true rfl rfl
    · rw [Function.update_of_ne heq]
      exact iff_of_false (ho.owner h') heq
  · change Function.update o.extra h _ h' = 0
    by_cases heq : h' = h
    · rw [heq, Function.update_self, ho.extra h, hshare]
      rfl
    · rw [Function.update_of_ne heq, ho.extra h']

theorem Inv.good_grab (hinv : s.Inv o) (ho : o.Settled) (destination : Handle) (message : Message) :
    (s.grab destination message).Good := by
  unfold Node.grab
  split_ifs with hregistered
  · have hreferred := hinv.refer destination hregistered
    have hshared :=
      hreferred.share destination (s.registered destination) (s.sends ++ [(destination, message)])
      s.releases 0 (fun h' hne => ?_) (fun _ _ => rfl) ?_
    · rw [Function.update_eq_self] at hshared
      refine ⟨_, hshared, ho.owner, fun h' => ?_⟩
      change Function.update (Function.update o.extra destination _) destination 0 h' = 0
      by_cases heq : h' = destination
      · rw [heq, Function.update_self]
      · rw [Function.update_of_ne heq, Function.update_of_ne heq, ho.extra h']
    · rw [List.map_append, List.count_append]
      exact (Nat.add_eq_left.mpr
        (List.count_eq_zero.mpr fun hmem => hne (List.mem_singleton.mp hmem)))
    · change (s.registered destination).toNat +
        ((s.sends ++ [(destination, message)]).map Prod.fst).count destination +
        s.releases.count destination + 0 = (s.registered destination).toNat +
          (s.sends.map Prod.fst).count destination +
          s.releases.count destination +
            Function.update o.extra destination (o.extra destination + 1) destination
      have hone : [(destination, message)].map Prod.fst = [destination] := rfl
      rw [List.map_append, List.count_append, hone, List.count_singleton_self, Function.update_self,
        ho.extra destination]
      omega
  · exact ⟨o, hinv, ho⟩

/-- A round of `_drop_queue` drops the first message, or there is none. -/
theorem Inv.dropQueue (hinv : s.Inv o) (ho : o.Settled) (hreleased : Released (s.queue h)) :
    (∃ s', s.dropQueue h = some s' ∧ s'.Good) ∨
      s.dropQueue h = none ∧ ∃ q, s.queue h = some q ∧ q.release = true ∧ q.ring.toList = [] := by
  obtain ⟨q, hq, hrelease⟩ := hreleased
  have hqueue := (hinv.ok h).queue q hq
  unfold Node.dropQueue
  rw [hq, Option.bind_some]
  rcases MessageQueue.pop_spec hqueue.valid with ⟨hempty, q', hpop, -⟩ | ⟨message, q', hpop, hvalid,
    hlist, hrelease', -⟩
  · rw [hpop]
    exact .inr ⟨rfl, q, rfl, hrelease, hempty⟩
  · rw [hpop]
    have href : s.ref h = 0 := hqueue.dead.mp hrelease
    have hdropped := hinv.setContents hq q' (o.owner h) (s.pushed h) (s.taken h)
      (s.dropped h ++ [message]) hrelease'
      hvalid (iff_of_true (hqueue.owned.mpr (.inr hrelease)) (.inr (hrelease'.trans hrelease)))
      (fun _ hfalse => by rw [hrelease', hrelease] at hfalse; cases hfalse) (fun _ _ _ => Iff.rfl)
      (by rw [hinv.fifo hq, hlist]; simp) (fun hne => absurd href hne)
    rw [Function.update_eq_self, Function.update_eq_self, Function.update_eq_self] at hdropped
    refine .inl ⟨_, rfl, ?_⟩
    split_ifs
    · exact ⟨o, hdropped, ho⟩
    · exact Inv.good_grab hdropped ho _ _

theorem good_start (hinv : s.Inv o) (ho : o.Settled) (h : Handle) (ok : Bool) :
    (s.start h ok).Good := by
  have hok := hinv.ok h
  unfold Node.start
  cases hstart : s.starting h with
  | no => exact ⟨o, hinv, ho⟩
  | init =>
      cases ok with
      | true =>
          exact hinv.start_release ho .launched Starting.noConfusion rfl (by rw [hstart]; rfl)
            Starting.noConfusion
      | false =>
          exact hinv.start_release ho .failed Starting.noConfusion rfl (by rw [hstart]; rfl)
            Starting.noConfusion
  | launched =>
      exact hinv.start_link ho (by rw [hstart]; exact Starting.noConfusion) (by rw [hstart]; rfl)
  | failed =>
      dsimp only
      split_ifs with hregistered
      · have hunregistered :=
          hinv.share h false s.sends s.releases 1 (fun _ _ => rfl) (fun _ _ => rfl)
          (by rw [hregistered, ho.extra h, Bool.toNat_true, Bool.toNat_false]; omega)
        have hextra : Function.update o.extra h 1 h = 1 := Function.update_self ..
        have hretiring := hunregistered.setStarting h .retiring
          (by change s.starting h ≠ .no; rw [hstart]; exact Starting.noConfusion)
          (by change 1 ≤ (s.starting h).share + Function.update o.extra h 1 h; rw [hextra]; omega)
            Starting.noConfusion
        refine ⟨_, hretiring, fun h' => ?_, fun h' => ?_⟩
        · change Function.update o.owner h .starter h' ≠ .hand
          by_cases heq : h' = h
          · rw [heq, Function.update_self]
            exact Owner.noConfusion
          · rw [Function.update_of_ne heq]
            exact ho.owner h'
        · change Function.update (Function.update o.extra h 1) h
            ((s.starting h).share + Function.update o.extra h 1 h - 1) h' = 0
          by_cases heq : h' = h
          · rw [heq, Function.update_self, hextra, hstart]
            rfl
          · rw [Function.update_of_ne heq, Function.update_of_ne heq, ho.extra h']
      · exact hinv.start_on ho .retired (by rw [hstart]; exact Starting.noConfusion)
          Starting.noConfusion
          (by rw [hstart]; rfl) Starting.noConfusion
  | retiring =>
      exact hinv.start_release ho .retired Starting.noConfusion rfl (by rw [hstart]; rfl)
        Starting.noConfusion
  | retired =>
      have howner : o.owner h = .starter := hok.begun.mp
        (by rw [show (s.view o h).starting = _ from hstart]; exact Starting.noConfusion)
      obtain ⟨q, hq, hqueue⟩ := hinv.owned h (by rw [howner]; exact Owner.noConfusion)
      dsimp only
      rw [hq]
      dsimp only
      split_ifs with hrelease
      · exact hinv.start_on ho .dropping (by rw [hstart]; exact Starting.noConfusion)
          Starting.noConfusion
          (by rw [hstart]; rfl) fun _ => ⟨q, hq, hrelease⟩
      · exact hinv.start_link ho (by rw [hstart]; exact Starting.noConfusion) (by rw [hstart]; rfl)
  | dropping =>
      dsimp only
      rcases hinv.dropQueue ho (hok.dropping hstart) with ⟨s', hdrop, hgood⟩ | ⟨hdrop, q, hq,
        hrelease, hempty⟩
      · rw [hdrop]
        exact hgood
      · rw [hdrop]
        have hended := hinv.setStarting h .no (by rw [hstart]; exact Starting.noConfusion)
          (Nat.zero_le _) Starting.noConfusion
        refine ⟨_, hended.free (h := h) hq (Function.update_self ..) hrelease hempty, fun h' => ?_,
          fun h' => ?_⟩
        · change Function.update (Function.update o.owner h _) h .none h' ≠ .hand
          by_cases heq : h' = h
          · rw [heq, Function.update_self]
            exact Owner.noConfusion
          · rw [Function.update_of_ne heq, Function.update_of_ne heq]
            exact ho.owner h'
        · change Function.update o.extra h ((s.starting h).share + o.extra h - 0) h' = 0
          by_cases heq : h' = h
          · rw [heq, Function.update_self, ho.extra h, hstart]
            rfl
          · rw [Function.update_of_ne heq, ho.extra h']

theorem Owners.goto_hand (o : Owners) (w : Worker) (old new : Phase) (h : Handle) :
    (o.goto w old new).owner h = .hand ↔ h ∉ new.queues ∧ (h ∈ old.queues ∨ o.owner h = .hand) := by
  change (if h ∈ new.queues then Owner.worker w else if h ∈ old.queues then .hand else o.owner h) =
    .hand ↔ _
  by_cases hnew : h ∈ new.queues
  · rw [if_pos hnew]
    exact iff_of_false Owner.noConfusion fun hboth => hboth.1 hnew
  · rw [if_neg hnew]
    by_cases hold : h ∈ old.queues
    · rw [if_pos hold]
      exact iff_of_true rfl ⟨hnew, .inl hold⟩
    · rw [if_neg hold]
      exact ⟨fun hhand => ⟨hnew, .inr hhand⟩, fun hboth => hboth.2.resolve_left hold⟩

theorem Inv.worker_owner (hinv : s.Inv o) {p : Phase} (hphase : s.workers w = p) (h : Handle)
    (hmem : h ∈ p.queues) :
    o.owner h = .worker w := (hinv.held w h).mp (hphase ▸ hmem)

/-- A worker goes on with what it has. -/
theorem Inv.good_goto (hinv : s.Inv o) (ho : o.Settled) {old : Phase}
    (hphase : s.workers w = old) (p : Phase)
    (hqueues : p.queues = old.queues) (hctx : p.ctx = old.ctx)
    (hdropping : ∀ h, p = .dropping h → Released (s.queue h)) : (s.goto w p).Good := by
  have hold : ∀ h ∈ p.queues, o.owner h = .worker w :=
    fun h hmem => hinv.worker_owner hphase h (hqueues ▸ hmem)
  refine ⟨_, hinv.goto w p (fun h hmem => .inl (hold h hmem))
    (fun h hp => .inl (by rw [hphase, ← hctx, hp])) hdropping
    (by rw [hqueues, ← hphase]; exact hinv.distinct w), fun h hhand => ?_, fun h => ?_⟩
  · rw [hphase, Owners.goto_hand, hqueues] at hhand
    exact hhand.2.elim hhand.1 (ho.owner h)
  · change o.extra h + (if (s.workers w).ctx = some h then 1 else 0) -
      (if p.ctx = some h then 1 else 0) = 0
    rw [hphase, hctx, ho.extra h]
    omega

/-- A worker links a queue that it has. -/
theorem Inv.good_link (hinv : s.Inv o) (ho : o.Settled) {old : Phase}
    (hphase : s.workers w = old) (p : Phase)
    (hqueues : ∀ h', h' ∈ old.queues ↔ h' ∈ p.queues ∨ h' = h) (hnew : h ∉ p.queues)
    (hdistinct : p.queues.Nodup)
    (hctx : p.ctx = old.ctx) (hdropping : ∀ h, p ≠ .dropping h) :
    ((s.globalmqPush h).goto w p).Good := by
  rw [globalmqPush_goto]
  have hgone :=
    hinv.goto w p (fun h' hmem => .inl (hinv.worker_owner hphase h' ((hqueues h').mpr (.inl hmem))))
    (fun h' hp => .inl (by rw [hphase, ← hctx, hp]))
      (fun h' hp => absurd hp (hdropping h')) hdistinct
  refine hgone.good_globalmqPush h (fun h' => ?_) fun h' => ?_
  · rw [hphase, Owners.goto_hand, hqueues h']
    constructor
    · rintro ⟨hout, hin | hhand⟩
      · exact hin.resolve_left hout
      · exact absurd hhand (ho.owner h')
    · rintro rfl
      exact ⟨hnew, .inl (.inr rfl)⟩
  · change o.extra h' + (if (s.workers w).ctx = some h' then 1 else 0) -
      (if p.ctx = some h' then 1 else 0) = 0
    rw [hphase, hctx, ho.extra h']
    omega

/-- A worker gives a context back. -/
theorem Inv.good_release (hinv : s.Inv o) (ho : o.Settled) {old : Phase}
    (hphase : s.workers w = old) (p : Phase)
    (hqueues : p.queues = old.queues) (hold : old.ctx = some h) (hctx : p.ctx = none)
    (hdropping : ∀ h, p ≠ .dropping h) : ((s.contextRelease h).goto w p).Good := by
  rw [contextRelease_goto]
  have hgone := hinv.goto w p (fun h' hmem => .inl (hinv.worker_owner hphase h' (hqueues ▸ hmem)))
    (fun h' hp => by rw [hctx] at hp; cases hp) (fun h' hp => absurd hp (hdropping h'))
    (by rw [hqueues, ← hphase]; exact hinv.distinct w)
  refine hgone.good_contextRelease h (fun h' hhand => ?_) fun h' => ?_
  · rw [hphase, Owners.goto_hand, hqueues] at hhand
    exact hhand.2.elim hhand.1 (ho.owner h')
  · change o.extra h' + (if (s.workers w).ctx = some h' then 1 else 0) -
      (if p.ctx = some h' then 1 else 0) = _
    rw [hphase, hold, hctx, ho.extra h']
    by_cases heq : h' = h
    · simp [heq]
    · simp [heq, Ne.symm heq]

/-- A worker takes a queue from the global list. -/
theorem Inv.good_pop (hinv : s.Inv o) (ho : o.Settled) {old : Phase}
    (hphase : s.workers w = old) (p : Phase)
    {global : List Handle} (hglobal : s.global = h :: global)
    (hqueues : ∀ h', h' ∈ p.queues ↔ h' ∈ old.queues ∨ h' = h)
    (hctx : p.ctx = old.ctx) (hdropping : ∀ h, p ≠ .dropping h)
    (hdistinct : h ∉ old.queues → p.queues.Nodup) :
    (({ s with global } : Node).goto w p).Good := by
  have howner : o.owner h = .global :=
    (hinv.linked h).mp (by rw [hglobal]; exact List.mem_cons_self)
  have hout : h ∉ old.queues := fun hmem => by
    rw [hinv.worker_owner hphase h hmem] at howner
    cases howner
  have hpopped := hinv.pop_global hglobal
  have hworkers : ({ s with global } : Node).workers w = old := hphase
  have hself : Function.update o.owner h .hand h = .hand := Function.update_self ..
  have hgone :=
    hpopped.goto w p (fun h' hmem => ?_) (fun h' hp => .inl (by rw [hworkers, ← hctx, hp]))
    (fun h' hp => absurd hp (hdropping h')) (hdistinct hout)
  · refine ⟨_, hgone, fun h' hhand => ?_, fun h' => ?_⟩
    · rw [hworkers, Owners.goto_hand] at hhand
      obtain ⟨hnot, hold | hhand⟩ := hhand
      · exact hnot ((hqueues h').mpr (.inl hold))
      · have hne : h' ≠ h := fun heq => hnot ((hqueues h').mpr (.inr heq))
        change Function.update o.owner h .hand h' = .hand at hhand
        rw [Function.update_of_ne hne] at hhand
        exact ho.owner h' hhand
    · change o.extra h' + (if (s.workers w).ctx = some h' then 1 else 0) -
        (if p.ctx = some h' then 1 else 0) = 0
      rw [hphase, hctx, ho.extra h']
      omega
  · change Function.update o.owner h .hand h' = .worker w ∨
      Function.update o.owner h .hand h' = .hand
    rcases (hqueues h').mp hmem with hold | rfl
    · have hne : h' ≠ h := fun heq => hout (heq ▸ hold)
      rw [Function.update_of_ne hne]
      exact .inl (hinv.worker_owner hphase h' hold)
    · exact .inr hself

/-- A worker that has a context refers to it. -/
theorem Inv.user_ref (hinv : s.Inv o) {p : Phase} (hphase : s.workers w = p)
    (hctx : p.ctx = some h) : s.ref h ≠ 0 := by
  have hmem : w ∈ o.users h := (hinv.users w h).mpr (by rw [hphase, hctx])
  have hpos := Finset.card_pos.mpr ⟨w, hmem⟩
  have hrefs := hinv.refs h
  omega

theorem Inv.good_grab_worker (hinv : s.Inv o) (ho : o.Settled)
    (hphase : s.workers w = .top (some h))
    (hregistered : s.registered h = true) :
    ({ s with ref := Function.update s.ref h (s.ref h + 1) }.goto w (.ready h 0 1)).Good := by
  have hreferred := hinv.refer h hregistered
  have hself : Function.update o.extra h (o.extra h + 1) h = 1 := by
    rw [Function.update_self, ho.extra h]
  have hworkers : ({ s with ref := Function.update s.ref h (s.ref h + 1) } : Node).workers w =
    .top (some h) := hphase
  have hgone := hreferred.goto w (.ready h 0 1)
    (fun h' hmem => .inl (hinv.worker_owner hphase h' hmem)) (fun h' hctx => .inr ?_)
      (fun h' hp => by cases hp)
    (List.nodup_singleton h)
  · refine ⟨_, hgone, fun h' hhand => ?_, fun h' => ?_⟩
    · rw [hworkers, Owners.goto_hand] at hhand
      exact hhand.2.elim hhand.1 (ho.owner h')
    · change Function.update o.extra h (o.extra h + 1) h' +
        (if (s.workers w).ctx = some h' then 1 else 0) -
        (if some h = some h' then 1 else 0) = 0
      rw [hphase]
      by_cases heq : h' = h
      · rw [heq, hself]
        simp [Phase.ctx]
      · rw [Function.update_of_ne heq, ho.extra h']
        simp [Phase.ctx]
  · obtain rfl := Option.some.inj hctx
    change Function.update o.extra h (o.extra h + 1) h ≠ 0
    rw [hself]
    exact Nat.one_ne_zero

theorem Inv.good_free (hinv : s.Inv o) (ho : o.Settled) (hphase : s.workers w = .dropping h)
    (hq : s.queue h = some q)
    (hrelease : q.release = true) (hempty : q.ring.toList = []) :
    ((s.setQueue h none).goto w (.top none)).Good := by
  have hgone := hinv.goto w (.top none) (fun h' hmem => absurd hmem List.not_mem_nil)
    (fun h' hp => by cases hp) (fun h' hp => by cases hp) List.nodup_nil
  have hhand : (o.goto w (s.workers w) (.top none)).owner h = .hand := by
    rw [hphase, Owners.goto_hand]
    exact ⟨List.not_mem_nil, .inl (List.mem_singleton_self h)⟩
  refine ⟨_, hgone.free (h := h) hq hhand hrelease hempty, fun h' => ?_, fun h' => ?_⟩
  · change Function.update (o.goto w (s.workers w) (.top none)).owner h .none h' ≠ .hand
    by_cases heq : h' = h
    · rw [heq, Function.update_self]
      exact Owner.noConfusion
    · rw [Function.update_of_ne heq, hphase, ne_eq, Owners.goto_hand]
      rintro ⟨-, hold | hhand⟩
      · exact heq (List.mem_singleton.mp hold)
      · exact ho.owner h' hhand
  · change o.extra h' + (if (s.workers w).ctx = some h' then 1 else 0) - 0 = 0
    rw [hphase, ho.extra h']
    rfl

/-- **Taking a message.** The first of the queue is taken, or the worker lets go of the queue. -/
theorem Inv.good_take (hinv : s.Inv o) (ho : o.Settled) {i n : Nat}
    (hphase : s.workers w = .ready h i n) :
    (s.take w h i n).Good := by
  obtain ⟨q, hq, hqueue, hrelease⟩ := hinv.alive h (hinv.user_ref hphase rfl)
  have href := hinv.user_ref hphase rfl
  have hdrops : s.dropped h = [] := (hinv.ok h).drops href
  have howner := hinv.worker_owner hphase h (List.mem_singleton_self h)
  have hglobal : q.inGlobal = true := by
    have howned := hqueue.owned.mp (by rw [howner]; exact Owner.noConfusion)
    exact howned.resolve_right (by rw [hrelease]; exact Bool.false_ne_true)
  unfold Node.take
  rw [hq]
  dsimp only
  rcases MessageQueue.pop_spec hqueue.valid with ⟨hempty, q', hpop, hring, hrelease', hglobal'⟩ |
    ⟨message, q', hpop, hvalid, hlist, hrelease', hglobal'⟩
  · rw [hpop]
    dsimp only
    have hgone := hinv.goto w (.emptied h) (fun h' hmem => absurd hmem List.not_mem_nil)
      (fun h' hp => .inl (by rw [hphase]; exact hp)) (fun h' hp => by cases hp) List.nodup_nil
    have hhand : (o.goto w (s.workers w) (.emptied h)).owner h = .hand := by
      rw [hphase, Owners.goto_hand]
      exact ⟨List.not_mem_nil, .inl (List.mem_singleton_self h)⟩
    have hquiet :=
      hgone.setContents (h := h) hq q' .none (s.pushed h) (s.taken h) (s.dropped h) hrelease'
      (hring ▸ hqueue.valid)
        (iff_of_false (fun hne => hne rfl) (by rw [hglobal', hrelease', hrelease]; simp))
      (fun _ _ => by rw [hring, hempty]) (fun x hxhand hxnone => by
        rw [hhand]
        exact iff_of_false hxnone.symm hxhand.symm) (by rw [hinv.fifo hq, hring]) (fun _ => hdrops)
    have hstate : (s.setQueue h (some q')).goto w (.emptied h) =
        { s.goto w (.emptied h) with
          queue := Function.update s.queue h (some q')
          pushed := Function.update s.pushed h (s.pushed h)
          taken := Function.update s.taken h (s.taken h)
          dropped := Function.update s.dropped h (s.dropped h) } := by
      rw [Function.update_eq_self, Function.update_eq_self, Function.update_eq_self]
      rfl
    rw [hstate]
    refine ⟨_, hquiet, fun h' => ?_, fun h' => ?_⟩
    · change Function.update (o.goto w (s.workers w) (.emptied h)).owner h .none h' ≠ .hand
      by_cases heq : h' = h
      · rw [heq, Function.update_self]
        exact Owner.noConfusion
      · rw [Function.update_of_ne heq, hphase, ne_eq, Owners.goto_hand]
        rintro ⟨-, hold | hhand⟩
        · exact heq (List.mem_singleton.mp hold)
        · exact ho.owner h' hhand
    · change o.extra h' + (if (s.workers w).ctx = some h' then 1 else 0) -
        (if some h = some h' then 1 else 0) = 0
      rw [hphase, ho.extra h']
      simp [Phase.ctx]
  · rw [hpop]
    dsimp only
    have htaken := hinv.setContents hq q' (o.owner h) (s.pushed h) (s.taken h ++ [message])
      (s.dropped h) hrelease'
      hvalid (iff_of_true (by rw [howner]; exact Owner.noConfusion) (.inl (hglobal'.trans hglobal)))
      (fun hfalse _ => by rw [hglobal', hglobal] at hfalse; cases hfalse) (fun _ _ _ => Iff.rfl)
      (by rw [hinv.fifo hq, hlist, hdrops]; simp) (fun _ => hdrops)
    rw [Function.update_eq_self, Function.update_eq_self, Function.update_eq_self] at htaken
    refine Inv.good_goto htaken ho hphase _ ?_ ?_ fun h' hp => ?_
    · split_ifs
      · rfl
      · rfl
    · split_ifs
      · rfl
      · rfl
    · split_ifs at hp

theorem good_work (hinv : s.Inv o) (ho : o.Settled) (w : Worker) : (s.work w).Good := by
  unfold Node.work
  cases hphase : s.workers w with
  | top queue =>
      cases queue with
      | none =>
          dsimp only
          unfold Node.globalmqPop
          cases hglobal : s.global with
          | nil => exact hinv.good_goto ho hphase _ rfl rfl fun h hp => by cases hp
          | cons h global =>
              exact hinv.good_pop ho hphase _ hglobal
                (fun h' => by simp [Phase.queues]) rfl (fun h' hp => by cases hp)
                fun _ => List.nodup_singleton h
      | some h =>
          dsimp only
          split_ifs with hregistered
          · exact hinv.good_grab_worker ho hphase hregistered
          · exact hinv.good_goto ho hphase _ rfl rfl fun h hp => by cases hp
  | releasing h =>
      have howner := hinv.worker_owner hphase h (List.mem_singleton_self h)
      obtain ⟨q, hq, -⟩ := hinv.owned h (by rw [howner]; exact Owner.noConfusion)
      dsimp only
      rw [hq]
      dsimp only
      split_ifs with hrelease
      · exact hinv.good_goto ho hphase _ rfl rfl fun h' hp => by
          cases hp
          exact ⟨q, hq, hrelease⟩
      · exact hinv.good_link ho hphase _ (fun h' => by simp [Phase.queues]) List.not_mem_nil
          List.nodup_nil rfl
          fun h' hp => by cases hp
  | dropping h =>
      dsimp only
      rcases hinv.dropQueue ho (hinv.dropping w h hphase) with ⟨s', hdrop, hgood⟩ | ⟨hdrop, q, hq,
        hrelease, hempty⟩
      · rw [hdrop]
        exact hgood
      · rw [hdrop]
        exact hinv.good_free ho hphase hq hrelease hempty
  | ready h i n =>
      dsimp only
      split_ifs
      · exact hinv.good_take ho hphase
      · exact hinv.good_goto ho hphase _ rfl rfl fun h' hp => by cases hp
  | measuring h =>
      obtain ⟨q, hq, -⟩ := hinv.alive h (hinv.user_ref hphase rfl)
      dsimp only
      rw [hq]
      exact hinv.good_goto ho hphase _ rfl rfl fun h' hp => by cases hp
  | handling h i n =>
      obtain ⟨q, hq, hqueue, -⟩ := hinv.alive h (hinv.user_ref hphase rfl)
      dsimp only
      rw [hq]
      dsimp only
      split_ifs
      · exact hinv.good_goto ho hphase _ rfl rfl fun h' hp => by cases hp
      · have hreset := hinv.setContents hq { q with overload := 0 } (o.owner h) (s.pushed h)
          (s.taken h) (s.dropped h)
          rfl hqueue.valid hqueue.owned hqueue.quiet (fun _ _ _ => Iff.rfl) (hinv.fifo (q := q) hq)
            (hinv.ok h).drops
        rw [Function.update_eq_self, Function.update_eq_self, Function.update_eq_self,
          Function.update_eq_self]
          at hreset
        have hlogged : ({ s.setQueue h (some { q with overload := 0 }) with
            overloads := s.overloads ++ [(h, q.overload)] } : Node).Inv o := { hreset with }
        exact Inv.good_goto hlogged ho hphase _ rfl rfl fun h' hp => by cases hp
  | emptied h => exact hinv.good_release ho hphase _ rfl rfl rfl fun h' hp => by cases hp
  | finished h =>
      dsimp only
      unfold Node.globalmqPop
      cases hglobal : s.global with
      | nil => exact hinv.good_goto ho hphase _ rfl rfl fun h' hp => by cases hp
      | cons nq global =>
          refine hinv.good_pop ho hphase _ hglobal
            (fun h' => by simp [Phase.queues]) rfl (fun h' hp => by cases hp)
            fun hnew => ?_
          exact List.nodup_cons.mpr
            ⟨fun hmem => hnew (by simp [Phase.queues, List.mem_singleton.mp hmem]),
            List.nodup_singleton nq⟩
  | pushing h nq =>
      have hdistinct := hinv.distinct w
      rw [hphase] at hdistinct
      exact hinv.good_link ho hphase _ (fun h' => by simp [Phase.queues, or_comm])
        (List.nodup_cons.mp hdistinct).1
        (List.nodup_singleton nq) rfl fun h' hp => by cases hp
  | leaving h next => exact hinv.good_release ho hphase _ rfl rfl rfl fun h' hp => by cases hp

theorem perm_eraseIdx {α : Type*} {l : List α} {i : Nat} {x : α} (hx : l[i]? = some x) :
    l.Perm (x :: l.eraseIdx i) := by
  obtain ⟨hi, rfl⟩ := List.getElem?_eq_some_iff.mp hx
  exact (List.getElem_cons_eraseIdx_perm hi).symm

/-- **Pushing.** The queue of a context that the sender refers to is there, and is linked unless
someone has it. -/
theorem Inv.good_push (hinv : s.Inv o) (ho : o.Settled) {i : Nat}
    (hsend : s.sends[i]? = some (h, message)) :
    ({ s with sends := s.sends.eraseIdx i }.mqPush h message).Good := by
  have hperm := (perm_eraseIdx hsend).map Prod.fst
  have hcount : ∀ h', (s.sends.map Prod.fst).count h' =
      ((s.sends.eraseIdx i).map Prod.fst).count h' + if h' = h then 1 else 0 := by
    intro h'
    rw [hperm.count_eq, List.map_cons, List.count_cons]
    by_cases heq : h' = h
    · simp [heq]
    · simp [heq, Ne.symm heq]
  -- the reference of the sender comes into the hand of the thread, and goes to what it releases
  -- next
  have hshared := hinv.share h (s.registered h) (s.sends.eraseIdx i) s.releases 1
    (fun h' hne => by rw [hcount h', if_neg hne, Nat.add_zero]) (fun _ _ => rfl)
    (by rw [hcount h, if_pos rfl, ho.extra h]; omega)
  rw [Function.update_eq_self] at hshared
  have hextra : Function.update o.extra h 1 h = 1 := Function.update_self ..
  obtain ⟨q, hq, hqueue, hrelease⟩ := hshared.alive h
    (hshared.extra_ref h
      (by change Function.update o.extra h 1 h ≠ 0; rw [hextra]; exact Nat.one_ne_zero))
  change s.queue h = some q at hq
  have hqueue : QueueOk (s.ref h) (o.owner h) q := hqueue
  obtain ⟨hvalid, hlist⟩ := @MessageQueue.push_ring q message hqueue.valid
  have hnone : q.inGlobal = false ↔ o.owner h = .none := by
    have howned := hqueue.owned
    rw [hrelease] at howned
    cases hglobal : q.inGlobal <;> simp_all
  have hpushed :=
    hshared.setContents (h := h) hq (q.push message) (if q.inGlobal then o.owner h else .hand)
    (s.pushed h ++ [message]) (s.taken h) (s.dropped h) rfl hvalid (iff_of_true ?_ (.inl rfl))
    (fun hfalse => by cases hfalse) (fun x hhand hxnone => ?_)
      (by rw [hinv.fifo hq, hlist]; simp) (hinv.ok h).drops
  · rw [Function.update_eq_self, Function.update_eq_self] at hpushed
    have hreleasing :=
      hpushed.share h (s.registered h) (s.sends.eraseIdx i) (s.releases ++ [h]) 0 (fun _ _ => rfl)
      (fun h' hne => ?_) ?_
    · rw [Function.update_eq_self] at hreleasing
      have hzero : ∀ h', Function.update (Function.update o.extra h 1) h 0 h' = 0 := by
        intro h'
        by_cases heq : h' = h
        · rw [heq, Function.update_self]
        · rw [Function.update_of_ne heq, Function.update_of_ne heq, ho.extra h']
      have hstate : ({ s with sends := s.sends.eraseIdx i } : Node).mqPush h message =
          if q.inGlobal then
            { { s with sends := s.sends.eraseIdx i }.setQueue h (some (q.push message)) with
              pushed := Function.update s.pushed h (s.pushed h ++ [message])
              releases := s.releases ++ [h] }
          else
            { { s with sends := s.sends.eraseIdx i }.setQueue h (some (q.push message)) with
              pushed := Function.update s.pushed h (s.pushed h ++ [message])
              releases := s.releases ++ [h] }.globalmqPush h := by
        unfold Node.mqPush
        rw [hq]
      rw [hstate]
      by_cases hglobal : q.inGlobal = true
      · rw [if_pos hglobal]
        refine ⟨_, hreleasing, fun h' => ?_, hzero⟩
        change Function.update o.owner h (if q.inGlobal then o.owner h else .hand) h' ≠ .hand
        rw [if_pos hglobal, Function.update_eq_self]
        exact ho.owner h'
      · rw [if_neg hglobal]
        refine Inv.good_globalmqPush hreleasing h (fun h' => ?_) hzero
        change Function.update o.owner h (if q.inGlobal then o.owner h else .hand) h' =
          .hand ↔ h' = h
        rw [if_neg hglobal]
        by_cases heq : h' = h
        · rw [heq, Function.update_self]
          exact iff_of_true rfl rfl
        · rw [Function.update_of_ne heq]
          exact iff_of_false (ho.owner h') heq
    · rw [List.count_append]
      exact Nat.add_eq_left.mpr
        (List.count_eq_zero.mpr fun hmem => hne (List.mem_singleton.mp hmem))
    · change (s.registered h).toNat + ((s.sends.eraseIdx i).map Prod.fst).count h +
        (s.releases ++ [h]).count h + 0 =
        (s.registered h).toNat + ((s.sends.eraseIdx i).map Prod.fst).count h + s.releases.count h +
          Function.update o.extra h 1 h
      rw [hextra, List.count_append, List.count_singleton_self]
      omega
  · by_cases hglobal : q.inGlobal = true
    · rw [if_pos hglobal]
      exact fun howner => by rw [hnone.mpr howner] at hglobal; cases hglobal
    · rw [if_neg hglobal]
      exact Owner.noConfusion
  · by_cases hglobal : q.inGlobal = true
    · rw [if_pos hglobal]
    · rw [if_neg hglobal]
      change Owner.hand = x ↔ o.owner h = x
      rw [hnone.mp (Bool.eq_false_iff.mpr hglobal)]
      exact iff_of_false hhand.symm hxnone.symm

theorem Inv.good_release_thread (hinv : s.Inv o) (ho : o.Settled) {i : Nat}
    (hrelease : s.releases[i]? = some h) :
    ({ s with releases := s.releases.eraseIdx i }.contextRelease h).Good := by
  have hcount : ∀ h', s.releases.count h' = (s.releases.eraseIdx i).count h' + if h' =
      h then 1 else 0 := by
    intro h'
    rw [(perm_eraseIdx hrelease).count_eq, List.count_cons]
    by_cases heq : h' = h
    · simp [heq]
    · simp [heq, Ne.symm heq]
  have hshared := hinv.share h (s.registered h) s.sends (s.releases.eraseIdx i) 1 (fun _ _ => rfl)
    (fun h' hne => by rw [hcount h', if_neg hne, Nat.add_zero])
      (by rw [hcount h, if_pos rfl, ho.extra h]; omega)
  rw [Function.update_eq_self] at hshared
  refine hshared.good_contextRelease h ho.owner fun h' => ?_
  change Function.update o.extra h 1 h' = _
  by_cases heq : h' = h
  · rw [heq, Function.update_self, if_pos rfl]
  · rw [Function.update_of_ne heq, ho.extra h', if_neg heq]

theorem good_retire (hinv : s.Inv o) (ho : o.Settled) (h : Handle) : (s.retire h).Good := by
  unfold Node.retire
  split_ifs with hregistered
  · have hshared := hinv.share h false s.sends (s.releases ++ [h]) 0 (fun _ _ => rfl)
      (fun h' hne => by
        rw [List.count_append]
        exact Nat.add_eq_left.mpr
          (List.count_eq_zero.mpr fun hmem => hne (List.mem_singleton.mp hmem)))
      (by
        rw [List.count_append, List.count_singleton_self, hregistered, ho.extra h, Bool.toNat_true,
          Bool.toNat_false]
        omega)
    refine ⟨_, hshared, ho.owner, fun h' => ?_⟩
    change Function.update o.extra h 0 h' = 0
    by_cases heq : h' = h
    · rw [heq, Function.update_self]
    · rw [Function.update_of_ne heq, ho.extra h']
  · exact ⟨o, hinv, ho⟩

theorem Good.step (hgood : s.Good) (event : Event) : (s.step event).Good := by
  obtain ⟨o, hinv, ho⟩ := hgood
  cases event with
  | create h =>
      rw [Node.step]
      split_ifs with hcreated
      · exact ⟨o, hinv, ho⟩
      · exact good_create hinv ho (Bool.eq_false_iff.mpr hcreated)
  | start h ok => exact good_start hinv ho h ok
  | send destination message => exact hinv.good_grab ho destination message
  | push i =>
      rw [Node.step]
      cases hsend : s.sends[i]? with
      | none => exact ⟨o, hinv, ho⟩
      | some send => exact hinv.good_push ho hsend
  | release i =>
      rw [Node.step]
      cases hrelease : s.releases[i]? with
      | none => exact ⟨o, hinv, ho⟩
      | some h => exact hinv.good_release_thread ho hrelease
  | retire h => exact good_retire hinv ho h
  | work w => exact good_work hinv ho w

theorem good_start_node (weight : Worker → Int) : ({ weight } : Node).Good := by
  refine ⟨{},
    ⟨rfl, List.nodup_nil, fun h => ?_, fun w h => ?_, fun w => List.nodup_nil, fun w h => ?_,
    (fun w h hphase => by cases hphase), fun h => ?_⟩, (fun h => Owner.noConfusion), fun h => rfl⟩
  · exact iff_of_false List.not_mem_nil Owner.noConfusion
  · exact iff_of_false List.not_mem_nil Owner.noConfusion
  · exact iff_of_false (Finset.notMem_empty w) (Option.some_ne_none h).symm
  · exact ⟨iff_of_false (fun hne => hne rfl) Owner.noConfusion, rfl, (fun q hq => by cases hq),
      fun _ => ⟨rfl, rfl⟩,
      fun _ => ⟨rfl, rfl⟩, rfl, fun _ => rfl, (fun hdropping => by cases hdropping)⟩

theorem good_run (weight : Worker → Int) (events : List Event) : (run weight events).Good :=
  Run.invariant (fun _ event hgood _ => hgood.step event) events _ (good_start_node weight)
    (Run.Along.of_forall (fun _ _ => trivial) events _)

end Events

section Runs

variable (weight : Worker → Int) (events : List Event)

end Runs

end SdyServer.Scheduler.Node
