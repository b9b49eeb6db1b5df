import SdyServer.Skynet.Gate

/-!
# What the gate hands on

Without the ring and the table of uncomplete packages the gate would keep the bytes of each
connection that are not a package yet, and hand on every package in the order of the stream. The
gate does the same, so what is taken from a connection are the packages of its stream, however it is
cut and whatever comes in between.
-/

namespace SdyServer.ServerGate

open Netpack

/-- The gate as it is meant: every connection has its own stream. -/
structure Relay where
  front : Front
  rest : Fd → List UInt8 := fun _ => []

/-- One package is handed on. -/
def Front.take (g : Front) (fd : Fd) (msg : List UInt8) : Front :=
  (g.dispatchMsg fd msg msg.length).getD g

namespace Relay

def receive (g : Relay) (fd : Fd) (buffer : List UInt8) : Relay :=
  let read := packages.parse (g.rest fd ++ buffer)
  { front := read.1.foldl (fun front msg => front.take fd msg) g.front
    rest := Function.update g.rest fd read.2 }

def step (g : Relay) : Event → Relay
  | .data fd buffer => g.receive fd buffer
  | .connect _ => g
  | .close fd => { front := g.front.closed fd, rest := Function.update g.rest fd [] }
  | .accept fd addr => { g with front := g.front.opened fd addr }
  | .error fd msg => { front := g.front.failed fd msg, rest := Function.update g.rest fd [] }
  | .warning fd size => { g with front := g.front.send (.warning fd size) }
  | .fork => g
  | .forward source fd client address =>
      { g with front := g.front.forward source fd client address }
  | .acceptClient fd => { g with front := g.front.acceptClient fd }
  | .kick fd => { g with front := g.front.closeclient fd }

end Relay

/-- Data is not empty: the end of a connection is its own event. -/
def Event.Real : Event → Prop
  | .data _ buffer => buffer ≠ []
  | _ => True

namespace Front

variable {g : Front} {fd : Fd} {c : Connection}

section Known

/-- The handler knows every connection of the gate server. -/
def Known (g : Front) : Prop := ∀ fd, g.connection fd ≠ none → g.conns fd ≠ none

theorem Known.send (hg : g.Known) (sent : Sent) : (g.send sent).Known := hg

theorem Known.openclient (hg : g.Known) (fd : Fd) : (g.openclient fd).Known := by
  unfold Front.openclient
  split_ifs
  · exact hg
  · exact hg

theorem Known.closeclient (hg : g.Known) (fd : Fd) : (g.closeclient fd).Known := by
  unfold Front.closeclient
  split_ifs with hopen
  · intro other hother
    by_cases heq : other = fd
    · exact hg other (by rw [heq, hopen]; exact Option.some_ne_none _)
    · refine hg other ?_
      change Function.update g.connection fd (some false) other ≠ none at hother
      rwa [Function.update_of_ne heq] at hother
  · exact hg

/-- A package is sent or dropped: nothing raises, and nothing else changes. -/
theorem Known.dispatchMsg (hg : g.Known) (fd : Fd) (msg : List UInt8) :
    ∃ sent, g.dispatchMsg fd msg msg.length = some (g.send sent) ∧
      ((∃ agent ip, sent = .agent agent fd msg msg.length ip) ∨ sent = .data fd msg ∨
        sent = .dropped fd msg ∧ g.connection fd ≠ some true) := by
  unfold Front.dispatchMsg
  rw [List.take_length]
  split_ifs with hopen
  · obtain ⟨c, hc⟩ :=
      Option.ne_none_iff_exists'.mp (hg fd (by rw [hopen]; exact Option.some_ne_none _))
    rw [message, hc, Option.map_some, List.take_length]
    cases c.agent with
    | none => exact ⟨_, rfl, .inr (.inl rfl)⟩
    | some agent => exact ⟨_, rfl, .inl ⟨agent, c.ip, rfl⟩⟩
  · exact ⟨_, rfl, .inr (.inr ⟨rfl, hopen⟩)⟩

theorem Known.dispatchMsg_eq (hg : g.Known) (fd : Fd) (msg : List UInt8) :
    g.dispatchMsg fd msg msg.length = some (g.take fd msg) := by
  obtain ⟨sent, hsent, -⟩ := hg.dispatchMsg fd msg
  rw [take, hsent, Option.getD_some]

theorem Known.take (hg : g.Known) (fd : Fd) (msg : List UInt8) : (g.take fd msg).Known := by
  obtain ⟨sent, hsent, -⟩ := hg.dispatchMsg fd msg
  rw [Front.take, hsent, Option.getD_some]
  exact hg

theorem Known.foldl_take (hg : g.Known) (fd : Fd) (msgs : List (List UInt8)) :
    (msgs.foldl (fun front msg => front.take fd msg) g).Known := by
  induction msgs generalizing g with
  | nil => exact hg
  | cons msg msgs ih => exact ih (hg.take fd msg)

theorem Known.unforward (hg : g.Known) (fd : Fd) (c : Connection) : (g.unforward fd c).Known := by
  unfold Front.unforward
  cases c.agent with
  | none => exact hg
  | some agent =>
      intro other hother
      dsimp only at hother ⊢
      by_cases heq : other = fd
      · rw [heq, Function.update_self]
        exact Option.some_ne_none _
      · rw [Function.update_of_ne heq]
        exact hg other hother

theorem unforward_connection (g : Front) (fd : Fd) (c : Connection) :
    (g.unforward fd c).connection = g.connection := by
  unfold Front.unforward
  cases c.agent with
  | none => rfl
  | some agent => rfl

theorem handlerClose_connection (g : Front) (fd : Fd) :
    (g.handlerClose fd).connection = g.connection := by
  unfold Front.handlerClose
  cases g.conns fd with
  | none => rfl
  | some c => exact unforward_connection g fd c

theorem conns_handlerClose {other : Fd} (hother : other ≠ fd) :
    (g.handlerClose fd).conns other = g.conns other := by
  unfold Front.handlerClose
  cases g.conns fd with
  | none => rfl
  | some c =>
      dsimp only
      rw [Function.update_of_ne hother, Front.unforward]
      cases c.agent with
      | none => rfl
      | some agent => exact Function.update_of_ne hother _ _

/-- A connection that ends leaves both tables. -/
theorem Known.end (hg : g.Known) (fd : Fd) (sent : Sent) :
    (((g.handlerClose fd).send sent).closeFd fd).Known := by
  intro other hother
  by_cases heq : other = fd
  · subst heq
    refine absurd ?_ hother
    unfold Front.closeFd
    cases hconn : ((g.handlerClose other).send sent).connection other with
    | none => exact hconn
    | some _ => exact Function.update_self ..
  · have hconns : (((g.handlerClose fd).send sent).closeFd fd).conns other = g.conns other := by
      rw [← conns_handlerClose (g := g) heq]
      unfold Front.closeFd
      cases ((g.handlerClose fd).send sent).connection fd with
      | none => rfl
      | some _ => rfl
    rw [hconns]
    refine hg other ?_
    rw [← handlerClose_connection g fd]
    unfold Front.closeFd at hother
    cases hconn : ((g.handlerClose fd).send sent).connection fd with
    | none =>
        rw [hconn] at hother
        exact hother
    | some _ =>
        rw [hconn] at hother
        dsimp only at hother
        rwa [Function.update_of_ne heq] at hother

theorem Known.closed (hg : g.Known) (fd : Fd) : (g.closed fd).Known := by
  unfold Front.closed
  split_ifs
  · exact hg.end fd _
  · exact hg

theorem Known.failed (hg : g.Known) (fd : Fd) (msg : List UInt8) : (g.failed fd msg).Known := by
  unfold Front.failed
  split_ifs
  · exact hg
  · exact hg.end fd _

theorem Known.opened (hg : g.Known) (fd : Fd) (addr : List UInt8) : (g.opened fd addr).Known := by
  unfold Front.opened
  split_ifs
  · exact hg
  · intro other hother
    change Function.update g.connection fd (some true) other ≠ none at hother
    change Function.update g.conns fd (some { ip := addr }) other ≠ none
    by_cases heq : other = fd
    · rw [heq, Function.update_self]
      exact Option.some_ne_none _
    · rw [Function.update_of_ne heq] at hother ⊢
      exact hg other hother

theorem Known.forward (hg : g.Known) (source : Address) (fd : Fd)
    (client address : Option Address) :
    (g.forward source fd client address).Known := by
  unfold Front.forward
  cases hc : g.conns fd with
  | none => exact hg
  | some c =>
      refine Known.openclient (fun other hother => ?_) fd
      dsimp only at hother ⊢
      by_cases heq : other = fd
      · rw [heq, Function.update_self]
        exact Option.some_ne_none _
      · rw [Function.update_of_ne heq]
        exact hg.unforward fd c other hother

theorem Known.acceptClient (hg : g.Known) (fd : Fd) : (g.acceptClient fd).Known := by
  unfold Front.acceptClient
  cases hc : g.conns fd with
  | none => exact hg
  | some c => exact (hg.unforward fd c).openclient fd

end Known

end Front

namespace Gate

variable {g : Gate} {a : Relay} {fd : Fd}

section Refinement

/-- The gate between two events: nothing waits in the ring, and what is kept of a connection is the
rest of its stream. -/
structure Refines (g : Gate) (a : Relay) : Prop where
  front : g.front = a.front
  known : a.front.Known
  good : (Queue.getQueue g.queue).Good
  waiting : (Queue.getQueue g.queue).waiting = []
  rest : (Queue.getQueue g.queue).rest = a.rest

/-- The loop sends every package that waits. -/
theorem drain_spec {n : Nat} {msgs : List (List UInt8)} (hknown : g.front.Known)
    (hgood : (Queue.getQueue g.queue).Good)
    (hwaiting : (Queue.getQueue g.queue).waiting = msgs.map (packOf fd))
    (hn : msgs.length ≤ n) :
    (drain n g).front = msgs.foldl (fun front msg => front.take fd msg) g.front ∧
      (Queue.getQueue (drain n g).queue).Good ∧ (Queue.getQueue (drain n g).queue).waiting = [] ∧
      (Queue.getQueue (drain n g).queue).rest = (Queue.getQueue g.queue).rest := by
  induction msgs generalizing g n with
  | nil =>
      have hstay : drain n g = g := by
        cases n with
        | zero => rfl
        | succ n =>
            rcases Queue.pop_spec hgood with ⟨-, hnone⟩ | ⟨np, q', -, -, -, hcons⟩
            · rw [drain, hnone]
            · rw [hwaiting] at hcons
              cases hcons
      rw [hstay]
      exact ⟨rfl, hgood, hwaiting, rfl⟩
  | cons msg msgs ih =>
      cases n with
      | zero => exact absurd hn (Nat.not_succ_le_zero _)
      | succ n =>
          rcases Queue.pop_spec hgood with ⟨hempty, -⟩ | ⟨np, q', hpop, hgood', hrest, hcons⟩
          · rw [hwaiting] at hempty
            cases hempty
          · rw [hwaiting, List.map_cons, List.cons.injEq] at hcons
            obtain ⟨rfl, hcons⟩ := hcons
            have hlength : msgs.length ≤ n := Nat.le_of_succ_le_succ hn
            obtain ⟨hfront, hgood'', hwaiting'', hrest''⟩ :=
              ih (g := { g with front := g.front.take fd msg, queue := q' }) (hknown.take fd msg)
                hgood' hcons.symm
                hlength
            rw [drain, hpop]
            simp only [packOf, hknown.dispatchMsg_eq]
            exact ⟨hfront, hgood'', hwaiting'', hrest''.trans hrest⟩

theorem refines_init (front : Front) (hknown : front.Known) : Refines { front } { front } where
  front := rfl
  known := hknown
  good := Queue.good_empty
  waiting := rfl
  rest := by
    funext fd
    exact Queue.Complete.rest fun uc huc => absurd huc List.not_mem_nil

theorem Refines.receive (h : Refines g a) {buffer : List UInt8} (hbuffer : buffer ≠ []) :
    Refines (g.receive fd buffer) (a.receive fd buffer) := by
  obtain ⟨q', filtered, hfilter, hanswers⟩ := Queue.filterData_spec h.good fd hbuffer
  rw [h.rest] at hanswers
  have hknown : g.front.Known := h.front ▸ h.known
  unfold Gate.receive Relay.receive
  rw [hfilter]
  cases hanswers with
  | nothing hreads hnone =>
      dsimp only
      rw [hnone, List.foldl_nil]
      refine ⟨h.front, h.known, hreads.good, ?_, hreads.rest.trans (by rw [h.rest])⟩
      rw [hreads.waiting, h.waiting, hnone]
      rfl
  | @data msg hreads hone =>
      dsimp only
      rw [hone]
      exact ⟨by rw [h.front]; rfl, h.known.take fd msg, hreads.good,
        hreads.waiting.trans (by rw [h.waiting]; rfl),
        hreads.rest.trans (by rw [h.rest])⟩
  | more hreads =>
      have hwaiting := hreads.waiting
      rw [h.waiting, List.nil_append] at hwaiting
      have hlength : (packages.parse (a.rest fd ++ buffer)).1.length ≤
          (Queue.getQueue q').ring.length := by
        refine Nat.le_of_eq ?_
        rw [← RingBuffer.length_toList, ← List.length_map (packOf fd), ← hwaiting]
        rfl
      dsimp only
      rw [Gate.dispatchQueue]
      rcases Queue.pop_spec hreads.good with ⟨hempty, hpop⟩ | ⟨np, q'', hpop, -⟩
      · rw [hpop]
        have hnone : (packages.parse (a.rest fd ++ buffer)).1 = [] := by
          rw [hempty] at hwaiting
          exact List.map_eq_nil_iff.mp hwaiting.symm
        rw [hnone]
        exact ⟨h.front, h.known, hreads.good, hempty, hreads.rest.trans (by rw [h.rest])⟩
      · rw [hpop]
        obtain ⟨hfront, hgood, hdrained, hrest⟩ :=
          drain_spec (g := { g with queue := q', forks := g.forks + 1 }) hknown hreads.good
            hwaiting hlength
        refine ⟨hfront.trans ?_, ?_, hgood, hdrained,
          hrest.trans (hreads.rest.trans (by rw [h.rest]))⟩
        · rw [h.front]
        · exact h.known.foldl_take fd _

theorem Refines.step (h : Refines g a) {event : Event} (hreal : event.Real) :
    Refines (g.step event) (a.step event) := by
  cases event with
  | data fd buffer => exact h.receive hreal
  | connect fd => exact h
  | close fd =>
      obtain ⟨hgood, hrest, hwaiting⟩ := Queue.closeUncomplete_spec h.good fd
      exact ⟨congrArg (·.closed fd) h.front, h.known.closed fd, hgood, hwaiting.trans h.waiting,
        hrest.trans (by rw [h.rest]; rfl)⟩
  | accept fd addr =>
      exact ⟨congrArg (·.opened fd addr) h.front, h.known.opened fd addr, h.good, h.waiting, h.rest⟩
  | error fd msg =>
      obtain ⟨hgood, hrest, hwaiting⟩ := Queue.closeUncomplete_spec h.good fd
      exact ⟨congrArg (·.failed fd msg) h.front, h.known.failed fd msg, hgood,
        hwaiting.trans h.waiting,
        hrest.trans (by rw [h.rest]; rfl)⟩
  | warning fd size =>
      exact ⟨congrArg (·.send (.warning fd size)) h.front, h.known, h.good, h.waiting, h.rest⟩
  | fork =>
      -- the ring is empty between two events, so the loop that was forked finds nothing
      have hstep : g.step .fork = g ∨ g.step .fork = { g with forks := g.forks - 1 } := by
        simp only [Gate.step]
        split_ifs
        · exact .inl rfl
        · rw [Gate.dispatchQueue]
          rcases Queue.pop_spec h.good with ⟨-, hpop⟩ | ⟨np, q', -, -, -, hcons⟩
          · rw [hpop]
            exact .inr rfl
          · rw [h.waiting] at hcons
            cases hcons
      rcases hstep with hstep | hstep
      · rw [hstep]
        exact h
      · rw [hstep]
        exact ⟨h.front, h.known, h.good, h.waiting, h.rest⟩
  | forward source fd client address =>
      exact ⟨congrArg (·.forward source fd client address) h.front,
        h.known.forward source fd client address, h.good,
        h.waiting, h.rest⟩
  | acceptClient fd =>
      exact ⟨congrArg (·.acceptClient fd) h.front, h.known.acceptClient fd, h.good,
        h.waiting, h.rest⟩
  | kick fd =>
      exact ⟨congrArg (·.closeclient fd) h.front, h.known.closeclient fd, h.good, h.waiting, h.rest⟩

theorem refines_exec (events : List Event) (hreal : ∀ event ∈ events, event.Real) (front : Front)
    (hknown : front.Known) :
    Refines (Run.exec Gate.step { front } events) (Run.exec Relay.step { front } events) :=
  Run.simulation (fun _ _ _ h hevent => h.step hevent) events _ _ (refines_init front hknown) hreal

end Refinement

end Gate

/-- The packages of the connection that have been handed on or dropped since it last ended. -/
def Sent.taken (fd : Fd) (msgs : List (List UInt8)) : Sent → List (List UInt8)
  | .agent _ fd' msg _ _ => if fd' = fd then msgs ++ [msg] else msgs
  | .data fd' msg => if fd' = fd then msgs ++ [msg] else msgs
  | .dropped fd' msg => if fd' = fd then msgs ++ [msg] else msgs
  | .closed fd' => if fd' = fd then [] else msgs
  | .failed fd' _ => if fd' = fd then [] else msgs
  | _ => msgs

def Front.taken (g : Front) (fd : Fd) : List (List UInt8) := g.log.foldl (Sent.taken fd) []

/-- The bytes that have come on the connection since it last ended. -/
def Event.stream (fd : Fd) (s : List UInt8) : Event → List UInt8
  | .data fd' buffer => if fd' = fd then s ++ buffer else s
  | .close fd' => if fd' = fd then [] else s
  | .error fd' _ => if fd' = fd then [] else s
  | _ => s

def stream (fd : Fd) (events : List Event) : List UInt8 := events.foldl (Event.stream fd) []

section Stream

variable {g : Front} {fd fd' : Fd}

@[simp]
theorem Front.taken_send (g : Front) (sent : Sent) :
    (g.send sent).taken fd = sent.taken fd (g.taken fd) :=
  List.foldl_concat ..

theorem Front.log_unforward (g : Front) (fd : Fd) (c : Connection) :
    (g.unforward fd c).log = g.log ∧ (g.unforward fd c).socket = g.socket := by
  unfold Front.unforward
  cases c.agent with
  | none => exact ⟨rfl, rfl⟩
  | some agent => exact ⟨rfl, rfl⟩

theorem Front.log_handlerClose (g : Front) (fd : Fd) :
    (g.handlerClose fd).log = g.log ∧ (g.handlerClose fd).socket = g.socket := by
  unfold Front.handlerClose
  cases g.conns fd with
  | none => exact ⟨rfl, rfl⟩
  | some c => exact g.log_unforward fd c

theorem Front.log_closeFd (g : Front) (fd : Fd) :
    (g.closeFd fd).log = g.log ∧ (g.closeFd fd).socket = g.socket := by
  unfold Front.closeFd
  cases g.connection fd with
  | none => exact ⟨rfl, rfl⟩
  | some _ => exact ⟨rfl, rfl⟩

theorem Front.taken_of_log {g' : Front} (hlog : g'.log = g.log) : g'.taken fd = g.taken fd := by
  rw [Front.taken, hlog, Front.taken]

/-- The end of a connection, as far as its packages go. -/
theorem Front.taken_end (g : Front) (fd fd' : Fd) (sent : Sent) :
    (((g.handlerClose fd').send sent).closeFd fd').taken fd = sent.taken fd (g.taken fd) ∧
      (((g.handlerClose fd').send sent).closeFd fd').socket = g.socket := by
  obtain ⟨hlog, hsocket⟩ := g.log_handlerClose fd'
  obtain ⟨hlog', hsocket'⟩ := ((g.handlerClose fd').send sent).log_closeFd fd'
  refine ⟨?_, hsocket'.trans hsocket⟩
  rw [Front.taken_of_log hlog', Front.taken_send, Front.taken_of_log hlog]

theorem Front.taken_openclient (g : Front) (fd fd' : Fd) :
    (g.openclient fd').taken fd = g.taken fd ∧ (g.openclient fd').socket = g.socket := by
  unfold Front.openclient
  split_ifs
  · exact ⟨g.taken_send _, rfl⟩
  · exact ⟨rfl, rfl⟩

theorem Front.Known.taken_take (hg : g.Known) (fd fd' : Fd) (msg : List UInt8) :
    (g.take fd' msg).taken fd = (if fd' = fd then g.taken fd ++ [msg] else g.taken fd) ∧
      (g.take fd' msg).socket = g.socket := by
  obtain ⟨sent, hsent, hkind⟩ := hg.dispatchMsg fd' msg
  rw [Front.take, hsent, Option.getD_some, Front.taken_send]
  refine ⟨?_, rfl⟩
  rcases hkind with ⟨agent, ip, rfl⟩ | rfl | ⟨rfl, -⟩
  · rfl
  · rfl
  · rfl

theorem Front.Known.taken_foldl (hg : g.Known) (fd fd' : Fd) (msgs : List (List UInt8)) :
    (msgs.foldl (fun front msg => front.take fd' msg) g).taken fd =
        (if fd' = fd then g.taken fd ++ msgs else g.taken fd) ∧
      (msgs.foldl (fun front msg => front.take fd' msg) g).socket = g.socket := by
  induction msgs generalizing g with
  | nil => simp
  | cons msg msgs ih =>
      obtain ⟨htaken, hsocket⟩ := hg.taken_take fd fd' msg
      obtain ⟨htaken', hsocket'⟩ := ih (hg.take fd' msg)
      refine ⟨?_, hsocket'.trans hsocket⟩
      rw [List.foldl_cons, htaken', htaken]
      split_ifs
      · rw [List.append_assoc, List.singleton_append]
      · rfl

theorem Front.taken_opened (g : Front) (fd fd' : Fd) (addr : List UInt8) :
    (g.opened fd' addr).taken fd = g.taken fd ∧ (g.opened fd' addr).socket = g.socket := by
  unfold Front.opened
  split_ifs
  · exact ⟨g.taken_send _, rfl⟩
  · exact ⟨Front.taken_send _ _, rfl⟩

theorem Front.taken_closeclient (g : Front) (fd fd' : Fd) :
    (g.closeclient fd').taken fd = g.taken fd ∧ (g.closeclient fd').socket = g.socket := by
  unfold Front.closeclient
  split_ifs
  · exact ⟨Front.taken_send _ _, rfl⟩
  · exact ⟨rfl, rfl⟩

theorem Front.taken_acceptClient (g : Front) (fd fd' : Fd) :
    (g.acceptClient fd').taken fd = g.taken fd ∧ (g.acceptClient fd').socket = g.socket := by
  unfold Front.acceptClient
  cases g.conns fd' with
  | none => exact ⟨rfl, rfl⟩
  | some c =>
      obtain ⟨hlog, hsocket⟩ := g.log_unforward fd' c
      obtain ⟨htaken, hsocket'⟩ := (g.unforward fd' c).taken_openclient fd fd'
      exact ⟨htaken.trans (Front.taken_of_log hlog), hsocket'.trans hsocket⟩

theorem Front.taken_forward (g : Front) (fd : Fd) (source : Address) (fd' : Fd)
    (client address : Option Address) :
    (g.forward source fd' client address).taken fd = g.taken fd ∧
      (g.forward source fd' client address).socket = g.socket := by
  unfold Front.forward
  cases g.conns fd' with
  | none => exact ⟨rfl, rfl⟩
  | some c =>
      obtain ⟨hlog, hsocket⟩ := g.log_unforward fd' c
      exact (Front.taken_openclient _ fd fd').imp (fun h => h.trans (Front.taken_of_log hlog))
        fun h => h.trans hsocket

theorem Front.closed_facts (g : Front) (fd' : Fd) (hsocket : g.socket ≠ some fd) :
    (g.closed fd').taken fd = (if fd' = fd then [] else g.taken fd) ∧ (g.closed fd').socket ≠
    some fd := by
  unfold Front.closed
  split_ifs with hlisten hfd hfd
  · exact ⟨(g.taken_end fd fd' _).1.trans (if_pos hfd), (g.taken_end fd fd' _).2 ▸ hsocket⟩
  · exact ⟨(g.taken_end fd fd' _).1.trans (if_neg hfd), (g.taken_end fd fd' _).2 ▸ hsocket⟩
  · exact absurd (hfd ▸ not_not.mp hlisten) hsocket
  · exact ⟨rfl, (Option.some_ne_none fd).symm⟩

theorem Front.failed_facts (g : Front) (fd' : Fd) (msg : List UInt8)
    (hsocket : g.socket ≠ some fd) :
    (g.failed fd' msg).taken fd = (if fd' = fd then [] else g.taken fd) ∧
    (g.failed fd' msg).socket ≠ some fd := by
  unfold Front.failed
  split_ifs with hlisten hfd hfd
  · exact absurd (hfd ▸ hlisten) hsocket
  · exact ⟨g.taken_send _, hsocket⟩
  · exact ⟨(g.taken_end fd fd' _).1.trans (if_pos hfd), (g.taken_end fd fd' _).2 ▸ hsocket⟩
  · exact ⟨(g.taken_end fd fd' _).1.trans (if_neg hfd), (g.taken_end fd fd' _).2 ▸ hsocket⟩

/-- What has been taken from a connection that is not the listening socket, and what is left, are
told by its stream. -/
structure Relay.Streams (a : Relay) (fd : Fd) (s : List UInt8) : Prop where
  known : a.front.Known
  socket : a.front.socket ≠ some fd
  taken : a.front.taken fd = (packages.parse s).1
  rest : a.rest fd = (packages.parse s).2

/-- Nothing is left of a connection that ends. -/
theorem Relay.Streams.rest_ends {a : Relay} {s : List UInt8} (h : a.Streams fd s) (fd' : Fd) :
    Function.update a.rest fd' [] fd = (packages.parse (if fd' = fd then [] else s)).2 := by
  split_ifs with hfd
  · rw [hfd, Function.update_self, packages.parse_nil]
  · rw [Function.update_of_ne (Ne.symm hfd)]
    exact h.rest

theorem Relay.Streams.step {a : Relay} {s : List UInt8} (h : a.Streams fd s) (event : Event) :
    (a.step event).Streams fd (event.stream fd s) := by
  cases event with
  | data fd' buffer =>
      obtain ⟨htaken, hsocket⟩ :=
        h.known.taken_foldl fd fd' (packages.parse (a.rest fd' ++ buffer)).1
      refine ⟨h.known.foldl_take fd' _, hsocket ▸ h.socket, htaken.trans ?_, ?_⟩
      · simp only [Event.stream]
        split_ifs with hfd
        · rw [hfd, h.rest, packages.parse_append s, h.taken]
        · exact h.taken
      · simp only [Relay.step, Relay.receive, Event.stream]
        split_ifs with hfd
        · rw [hfd, Function.update_self, h.rest, packages.parse_append s]
        · rw [Function.update_of_ne (Ne.symm hfd)]
          exact h.rest
  | connect fd' => exact h
  | close fd' =>
      refine ⟨h.known.closed fd', ?_, ?_, ?_⟩
      · exact (a.front.closed_facts fd' h.socket).2
      · refine (a.front.closed_facts fd' h.socket).1.trans ?_
        simp only [Event.stream]
        split_ifs
        · rw [packages.parse_nil]
        · exact h.taken
      · exact h.rest_ends fd'
  | accept fd' addr =>
      obtain ⟨htaken, hsocket⟩ := a.front.taken_opened fd fd' addr
      exact ⟨h.known.opened fd' addr, hsocket ▸ h.socket, htaken.trans h.taken, h.rest⟩
  | error fd' msg =>
      refine ⟨h.known.failed fd' msg, ?_, ?_, ?_⟩
      · exact (a.front.failed_facts fd' msg h.socket).2
      · refine (a.front.failed_facts fd' msg h.socket).1.trans ?_
        simp only [Event.stream]
        split_ifs
        · rw [packages.parse_nil]
        · exact h.taken
      · exact h.rest_ends fd'
  | warning fd' size => exact ⟨h.known, h.socket, (a.front.taken_send _).trans h.taken, h.rest⟩
  | fork => exact h
  | forward source fd' client address =>
      obtain ⟨htaken, hsocket⟩ := a.front.taken_forward fd source fd' client address
      exact ⟨h.known.forward source fd' client address, hsocket ▸ h.socket,
        htaken.trans h.taken, h.rest⟩
  | acceptClient fd' =>
      obtain ⟨htaken, hsocket⟩ := a.front.taken_acceptClient fd fd'
      exact ⟨h.known.acceptClient fd', hsocket ▸ h.socket, htaken.trans h.taken, h.rest⟩
  | kick fd' =>
      obtain ⟨htaken, hsocket⟩ := a.front.taken_closeclient fd fd'
      exact ⟨h.known.closeclient fd', hsocket ▸ h.socket, htaken.trans h.taken, h.rest⟩

theorem known_start (listen : Fd) (maxclient : Nat) : (start listen maxclient).front.Known :=
  fun _ h => absurd rfl h

theorem streams_run (listen : Fd) (maxclient : Nat) (hfd : fd ≠ listen) (events : List Event) :
    (Run.exec Relay.step { front := (start listen maxclient).front } events).Streams fd
    (stream fd events) := by
  have hstart : ({ front := (start listen maxclient).front } : Relay).Streams fd [] := by
    refine ⟨known_start listen maxclient, fun h => hfd (Option.some.inj h).symm,
      ?_, by rw [packages.parse_nil]⟩
    rw [packages.parse_nil]
    rfl
  have hstep : ∀ (a : Relay) (s : List UInt8) (event : Event), a.Streams fd s → True →
      (a.step event).Streams fd (event.stream fd s) := fun _ _ event h _ => h.step event
  exact Run.simulation hstep events _ _ hstart fun _ _ => trivial

/-- **Every package once, in order.** Whatever happens on all connections, what has been taken from
one since it last ended are the packages of the bytes that have come on it since. -/
theorem taken_eq_parse (listen : Fd) (maxclient : Nat) {fd : Fd} (hfd : fd ≠ listen)
    (events : List Event)
    (hreal : ∀ event ∈ events, event.Real) :
    (run listen maxclient events).front.taken fd = (packages.parse (stream fd events)).1 := by
  have hrefines := Gate.refines_exec events hreal _ (known_start listen maxclient)
  exact (congrArg (·.taken fd) hrefines.front).trans (streams_run listen maxclient hfd events).taken

theorem taken_cut_in_the_header :
    (run 3 8 [.accept 7 [], .data 7 [0], .data 9 [0], .data 7 [2, 104], .data 7 [105]]).front.taken
    7 =
      [[104, 105]] := by
  rw [taken_eq_parse 3 8 (by decide) _ (by simp [Event.Real])]
  change (packages.parse [0, 2, 104, 105]).1 = _
  rw [parse_package (by decide)]
  exact congrArg (fun read => [104, 105] :: read.1) packages.parse_nil

end Stream

section Delivery

/-- The package of the connection that is handed on, if it is one. -/
def Sent.delivered (fd : Fd) : Sent → Option (List UInt8)
  | .agent _ fd' msg _ _ => if fd' = fd then some msg else none
  | .data fd' msg => if fd' = fd then some msg else none
  | _ => none

/-- What agents and the watchdog got from the connection. -/
def Front.delivered (g : Front) (fd : Fd) : List (List UInt8) := g.log.filterMap (Sent.delivered fd)

/-- The connection ends, or is closed by the server. -/
def Event.Ends (fd : Fd) : Event → Prop
  | .close fd' => fd' = fd
  | .error fd' _ => fd' = fd
  | .kick fd' => fd' = fd
  | _ => False

variable {g : Front} {fd fd' : Fd} {start : List (List UInt8)}

theorem next_frame {msg t : List UInt8} (hmsg : msg.length < 65536) :
    packages.next ((frame msg).getD [] ++ t) = some (msg, t) := by
  have hframe : frame msg =
      some (UInt8.ofNat (msg.length / 256) :: UInt8.ofNat (msg.length % 256) :: msg) := by
    rw [frame, short2Data, if_pos (by omega), Option.map_some]
    rfl
  rw [hframe, Option.getD_some]
  have hlt : ¬(msg ++ t).length <
      readSize (UInt8.ofNat (msg.length / 256)) (UInt8.ofNat (msg.length % 256)) := by
    rw [readSize_ofNat hmsg, List.length_append]
    omega
  refine (if_neg hlt).trans ?_
  rw [readSize_ofNat hmsg]
  change some ((msg ++ t).take msg.length, (msg ++ t).drop msg.length) = some (msg, t)
  rw [List.take_left, List.drop_left]

theorem parse_frames {msgs : List (List UInt8)} (hmsgs : ∀ msg ∈ msgs, msg.length < 65536) :
    packages.parse (msgs.map fun msg => (frame msg).getD []).flatten = (msgs, []) :=
  packages.parse_flatten fun msg hmsg _ => next_frame (hmsgs msg hmsg)

@[simp]
theorem Front.delivered_send (g : Front) (sent : Sent) :
    (g.send sent).delivered fd = g.delivered fd ++ (sent.delivered fd).toList := by
  rw [Front.delivered, Front.send, List.filterMap_append]
  cases h : sent.delivered fd with
  | none => rw [List.filterMap_cons_none h, List.filterMap_nil, Option.toList_none, Front.delivered]
  | some msg =>
      rw [List.filterMap_cons_some h, List.filterMap_nil, Option.toList_some, Front.delivered]

theorem Front.delivered_of_log {g' : Front} (hlog : g'.log = g.log) :
    g'.delivered fd = g.delivered fd := by
  rw [Front.delivered, hlog, Front.delivered]

theorem Front.delivered_end (g : Front) {sent : Sent} (hsent : sent.delivered fd = none) :
    (((g.handlerClose fd').send sent).closeFd fd').delivered fd = g.delivered fd := by
  rw [Front.delivered_of_log (Front.log_closeFd _ _).1, Front.delivered_send, hsent,
    Front.delivered_of_log (Front.log_handlerClose _ _).1, Option.toList_none, List.append_nil]

theorem Front.connection_end (g : Front) (sent : Sent) (hfd : fd' ≠ fd) :
    (((g.handlerClose fd').send sent).closeFd fd').connection fd = g.connection fd := by
  rw [← g.handlerClose_connection fd']
  unfold Front.closeFd
  cases ((g.handlerClose fd').send sent).connection fd' with
  | none => rfl
  | some _ => exact Function.update_of_ne (Ne.symm hfd) _ _

/-- A package of an open connection is handed on; one of another connection changes nothing for this
one. -/
theorem Front.Known.delivered_take (hg : g.Known) (hopen : g.connection fd = some true) (fd' : Fd)
    (msg : List UInt8) :
    (g.take fd' msg).connection fd = some true ∧
      (g.take fd' msg).delivered fd = if fd' = fd then g.delivered fd ++
      [msg] else g.delivered fd := by
  obtain ⟨sent, hsent, hkind⟩ := hg.dispatchMsg fd' msg
  rw [Front.take, hsent, Option.getD_some, Front.delivered_send]
  refine ⟨hopen, ?_⟩
  rcases hkind with ⟨agent, ip, rfl⟩ | rfl | ⟨rfl, hshut⟩
  · simp only [Sent.delivered]
    split_ifs
    · rfl
    · exact List.append_nil _
  · simp only [Sent.delivered]
    split_ifs
    · rfl
    · exact List.append_nil _
  · have hfd : fd' ≠ fd := fun heq => hshut (heq ▸ hopen)
    rw [if_neg hfd]
    exact List.append_nil _

theorem Front.Known.delivered_foldl (hg : g.Known) (hopen : g.connection fd = some true) (fd' : Fd)
    (msgs : List (List UInt8)) :
    (msgs.foldl (fun front msg => front.take fd' msg) g).connection fd = some true ∧
      (msgs.foldl (fun front msg => front.take fd' msg) g).delivered fd =
        if fd' = fd then g.delivered fd ++ msgs else g.delivered fd := by
  induction msgs generalizing g with
  | nil => exact ⟨hopen, by simp⟩
  | cons msg msgs ih =>
      obtain ⟨hopen', hdelivered⟩ := hg.delivered_take hopen fd' msg
      obtain ⟨hopen'', hdelivered'⟩ := ih (hg.take fd' msg) hopen'
      refine ⟨hopen'', ?_⟩
      rw [List.foldl_cons, hdelivered', hdelivered]
      split_ifs
      · rw [List.append_assoc, List.singleton_append]
      · rfl

theorem Front.delivered_quiet (g : Front) {sent : Sent} (hsent : sent.delivered fd = none) :
    (g.send sent).delivered fd = g.delivered fd := by
  rw [Front.delivered_send, hsent, Option.toList_none, List.append_nil]

theorem Front.stays_openclient (hopen : g.connection fd = some true) :
    (g.openclient fd').connection fd = some true ∧ (g.openclient fd').delivered fd =
    g.delivered fd := by
  unfold Front.openclient
  split_ifs
  · exact ⟨hopen, g.delivered_quiet rfl⟩
  · exact ⟨hopen, rfl⟩

theorem Front.stays_closeclient (hopen : g.connection fd = some true) (hfd : fd' ≠ fd) :
    (g.closeclient fd').connection fd = some true ∧ (g.closeclient fd').delivered fd =
    g.delivered fd := by
  unfold Front.closeclient
  split_ifs
  · exact ⟨(Function.update_of_ne (Ne.symm hfd) _ _).trans hopen, Front.delivered_quiet _ rfl⟩
  · exact ⟨hopen, rfl⟩

theorem Front.stays_opened (hopen : g.connection fd = some true) (fd' : Fd) (addr : List UInt8) :
    (g.opened fd' addr).connection fd = some true ∧ (g.opened fd' addr).delivered fd =
    g.delivered fd := by
  unfold Front.opened
  split_ifs
  · exact ⟨hopen, g.delivered_quiet rfl⟩
  · refine ⟨?_, Front.delivered_quiet _ rfl⟩
    change Function.update g.connection fd' (some true) fd = some true
    by_cases hfd : fd = fd'
    · rw [hfd, Function.update_self]
    · rw [Function.update_of_ne hfd, hopen]

theorem Front.stays_closed (hopen : g.connection fd = some true) (hfd : fd' ≠ fd) :
    (g.closed fd').connection fd = some true ∧ (g.closed fd').delivered fd = g.delivered fd := by
  unfold Front.closed
  split_ifs
  · exact ⟨(g.connection_end _ hfd).trans hopen, g.delivered_end rfl⟩
  · exact ⟨hopen, rfl⟩

theorem Front.stays_failed (hopen : g.connection fd = some true) (hfd : fd' ≠ fd)
    (msg : List UInt8) :
    (g.failed fd' msg).connection fd = some true ∧ (g.failed fd' msg).delivered fd =
    g.delivered fd := by
  unfold Front.failed
  split_ifs
  · exact ⟨hopen, g.delivered_quiet rfl⟩
  · exact ⟨(g.connection_end _ hfd).trans hopen, g.delivered_end rfl⟩

theorem Front.stays_acceptClient (hopen : g.connection fd = some true) (fd' : Fd) :
    (g.acceptClient fd').connection fd = some true ∧ (g.acceptClient fd').delivered fd =
    g.delivered fd := by
  unfold Front.acceptClient
  cases g.conns fd' with
  | none => exact ⟨hopen, rfl⟩
  | some c =>
      have hopen' : (g.unforward fd' c).connection fd = some true := by
        rw [unforward_connection, hopen]
      exact (Front.stays_openclient hopen').imp_right fun h =>
        h.trans (Front.delivered_of_log (g.log_unforward fd' c).1)

theorem Front.stays_forward (hopen : g.connection fd = some true) (source : Address) (fd' : Fd)
    (client address : Option Address) :
    (g.forward source fd' client address).connection fd = some true ∧
      (g.forward source fd' client address).delivered fd = g.delivered fd := by
  unfold Front.forward
  cases g.conns fd' with
  | none => exact ⟨hopen, rfl⟩
  | some c =>
      dsimp only
      have hopen' : (g.unforward fd' c).connection fd = some true := by
        rw [unforward_connection, hopen]
      refine (Front.stays_openclient ?_).imp_right fun h => h.trans ?_
      · exact hopen'
      · exact Front.delivered_of_log (g.log_unforward fd' c).1

/-- A connection that stays open has got what its stream says since `start`. -/
structure Relay.Delivers (a : Relay) (fd : Fd) (start : List (List UInt8)) (s : List UInt8) :
    Prop where
  known : a.front.Known
  socket : a.front.socket ≠ some fd
  isOpen : a.front.connection fd = some true
  delivered : a.front.delivered fd = start ++ (packages.parse s).1
  rest : a.rest fd = (packages.parse s).2

theorem Relay.Delivers.step {a : Relay} {s : List UInt8} (h : a.Delivers fd start s) {event : Event}
    (hstays : ¬event.Ends fd) : (a.step event).Delivers fd start (event.stream fd s) := by
  cases event with
  | data fd' buffer =>
      have hsocket := (h.known.taken_foldl fd fd' (packages.parse (a.rest fd' ++ buffer)).1).2
      obtain ⟨hopen, hdelivered⟩ :=
        h.known.delivered_foldl h.isOpen fd' (packages.parse (a.rest fd' ++ buffer)).1
      refine ⟨h.known.foldl_take fd' _, hsocket ▸ h.socket, hopen, hdelivered.trans ?_, ?_⟩
      · simp only [Event.stream]
        split_ifs with hfd
        · rw [hfd, h.rest, packages.parse_append s, h.delivered, List.append_assoc]
        · exact h.delivered
      · simp only [Relay.step, Relay.receive, Event.stream]
        split_ifs with hfd
        · rw [hfd, Function.update_self, h.rest, packages.parse_append s]
        · rw [Function.update_of_ne (Ne.symm hfd)]
          exact h.rest
  | connect fd' => exact h
  | close fd' =>
      have hfd : fd' ≠ fd := hstays
      obtain ⟨hopen, hdelivered⟩ := Front.stays_closed h.isOpen hfd
      refine ⟨h.known.closed fd', (a.front.closed_facts fd' h.socket).2, hopen, ?_, ?_⟩
      · simp only [Event.stream, if_neg hfd]
        exact hdelivered.trans h.delivered
      · simp only [Event.stream, if_neg hfd]
        exact (Function.update_of_ne (Ne.symm hfd) _ _).trans h.rest
  | accept fd' addr =>
      obtain ⟨hopen, hdelivered⟩ := Front.stays_opened h.isOpen fd' addr
      exact ⟨h.known.opened fd' addr, (a.front.taken_opened fd fd' addr).2 ▸ h.socket, hopen,
        hdelivered.trans h.delivered, h.rest⟩
  | error fd' msg =>
      have hfd : fd' ≠ fd := hstays
      obtain ⟨hopen, hdelivered⟩ := Front.stays_failed h.isOpen hfd msg
      refine ⟨h.known.failed fd' msg, (a.front.failed_facts fd' msg h.socket).2, hopen, ?_, ?_⟩
      · simp only [Event.stream, if_neg hfd]
        exact hdelivered.trans h.delivered
      · simp only [Event.stream, if_neg hfd]
        exact (Function.update_of_ne (Ne.symm hfd) _ _).trans h.rest
  | warning fd' size =>
      exact ⟨h.known, h.socket, h.isOpen, (Front.delivered_quiet _ rfl).trans h.delivered, h.rest⟩
  | fork => exact h
  | forward source fd' client address =>
      obtain ⟨hopen, hdelivered⟩ := Front.stays_forward h.isOpen source fd' client address
      exact ⟨h.known.forward source fd' client address,
        (a.front.taken_forward fd source fd' client address).2 ▸ h.socket, hopen,
        hdelivered.trans h.delivered, h.rest⟩
  | acceptClient fd' =>
      obtain ⟨hopen, hdelivered⟩ := Front.stays_acceptClient h.isOpen fd'
      exact ⟨h.known.acceptClient fd', (a.front.taken_acceptClient fd fd').2 ▸ h.socket, hopen,
        hdelivered.trans h.delivered, h.rest⟩
  | kick fd' =>
      obtain ⟨hopen, hdelivered⟩ := Front.stays_closeclient h.isOpen hstays
      exact ⟨h.known.closeclient fd', (a.front.taken_closeclient fd fd').2 ▸ h.socket, hopen,
        hdelivered.trans h.delivered, h.rest⟩

/-- **Delivery.** On a connection that has just been accepted and stays open, what a client writes
is handed on in order, message by message, while it comes, whatever its pieces are and whatever
happens on the others. -/
theorem messages_delivered (listen : Fd) (maxclient : Nat) {fd : Fd} (hfd : fd ≠ listen)
    (before events : List Event)
    (addr : List UInt8) (hreal : ∀ event ∈ before ++ .accept fd addr :: events, event.Real)
    (hfresh : stream fd before = [])
    (hroom : (run listen maxclient before).front.clientNumber <
      (run listen maxclient before).front.maxclient)
    (hstays : ∀ event ∈ events, ¬event.Ends fd) (msgs : List (List UInt8))
    (hmsgs : ∀ msg ∈ msgs, msg.length < 65536)
    (hstream : stream fd events <+: (msgs.map fun msg => (frame msg).getD []).flatten) :
    ∃ got, (run listen maxclient (before ++ .accept fd addr :: events)).front.delivered fd =
        (run listen maxclient before).front.delivered fd ++ got ∧ got <+: msgs ∧
      (stream fd events = (msgs.map fun msg => (frame msg).getD []).flatten → got = msgs) := by
  have hreal' : ∀ event ∈ before, event.Real :=
    fun event hevent => hreal event (List.mem_append_left _ hevent)
  have hbefore := Gate.refines_exec before hreal' _ (known_start listen maxclient)
  have hafter := Gate.refines_exec _ hreal _ (known_start listen maxclient)
  have hstreams := streams_run listen maxclient hfd before
  set a := Run.exec Relay.step { front := (ServerGate.start listen maxclient).front } before with ha
  have hfront : (run listen maxclient before).front = a.front := hbefore.front
  have haccepted : (a.step (.accept fd addr)).Delivers fd (a.front.delivered fd) [] := by
    have hnext := hstreams.step (.accept fd addr)
    have hopened : (a.step (.accept fd addr)).front = _ :=
      if_neg (by rw [← hfront]; exact Nat.not_le.mpr hroom)
    refine ⟨hnext.known, hnext.socket, ?_, ?_, ?_⟩
    · rw [hopened]
      exact Function.update_self ..
    · rw [hopened, packages.parse_nil, List.append_nil]
      exact Front.delivered_quiet _ rfl
    · refine hnext.rest.trans ?_
      rw [← hfresh]
      rfl
  have hdelivers : (Run.exec Relay.step (a.step (.accept fd addr)) events).Delivers fd
      (a.front.delivered fd)
      (stream fd events) := by
    have hstep : ∀ (a' : Relay) (s : List UInt8) (event : Event), a'.Delivers fd
        (a.front.delivered fd) s →
        ¬event.Ends fd → (a'.step event).Delivers fd (a.front.delivered fd) (event.stream fd s) :=
      fun _ _ _ h hevent => h.step hevent
    exact Run.simulation hstep events _ _ haccepted hstays
  have hall : (run listen maxclient (before ++ .accept fd addr :: events)).front =
      (Run.exec Relay.step (a.step (.accept fd addr)) events).front := by
    refine hafter.front.trans ?_
    rw [Run.exec_append, ← ha, Run.exec_cons]
  rw [hall, hfront, hdelivers.delivered]
  refine ⟨_, rfl, ?_, fun hwhole => ?_⟩
  · obtain ⟨t, ht⟩ := hstream
    have hparse := packages.parse_append (stream fd events) t
    rw [ht, parse_frames hmsgs] at hparse
    exact ⟨_, (congrArg Prod.fst hparse).symm⟩
  · rw [hwhole, parse_frames hmsgs]

theorem delivered_after_a_kick :
    (run 3 8 [.accept 7 [], .kick 7, .close 7, .accept 7 [], .data 7 [0, 1],
      .data 7 [65]]).front.delivered 7 =
      [[65]] := by
  have hfd : 7 ≠ 3 := by decide
  obtain ⟨got, hgot, -, hwhole⟩ :=
    messages_delivered 3 8 hfd [.accept 7 [], .kick 7, .close 7] [.data 7 [0, 1], .data 7 [65]] []
      (by simp [Event.Real]) rfl (by decide) (by simp [Event.Ends]) [[65]] (by decide) (by decide)
  rw [hwhole rfl] at hgot
  exact hgot

end Delivery

end SdyServer.ServerGate
