/-
  Daemon/Table.lean --- the connection table and the descriptors.

  Source: the event loop of `main` in `rtdbd/src/rtdbd.c`.

  A turn of the loop polls the descriptors of the open connections, accepts at
  most one connection, and looks at the polled descriptors one after another; the
  connection of a descriptor is searched for in the table.  A descriptor that is
  closed may be handed out again by the next `accept`, and the rest of the process
  opens and closes descriptors of its own.  Every step is made of events of
  `EventLoop`, which the state lists.
-/
import InduRtdb.Daemon.Subscriptions

set_option autoImplicit false

namespace InduRtdb.Daemon

open InduRtdb.Core InduRtdb.Api InduRtdb.Lib

/-! ## Turns of the loop -/

/-- An entry of `fds` behind the first: a descriptor, and whether `POLLOUT` is asked
for. -/
structure PollFd where
  fd : Int
  pollout : Bool
  deriving DecidableEq

/-- The loop between two steps of a turn. -/
structure PollLoop where
  loop : EventLoop
  /-- the descriptors the process has open -/
  opened : List Int
  /-- `fds[0]` has not been looked at since the last `poll` -/
  listening : Bool
  /-- the entries of `fds` that have not been looked at -/
  fds : List PollFd
  /-- the events so far, the last one first, each with the state it found -/
  history : List (EventLoop × LoopEvent)

/-- What is found on a descriptor: the answer of `poll`, the answers of the sends of
`outq_flush`, and what a request finds. -/
structure Ready where
  pollout : Bool
  pollin : Bool
  results : List SendResult
  now : Nat
  input : List UInt8
  room : Option Nat
  env : Env

/-- A step of the loop, or of the rest of the process on its descriptors. -/
inductive PollEvent where
  | poll
  | accept (cfd : Int)
  | serve (ready : Ready)
  | openElsewhere (fd : Int)
  | closeElsewhere (fd : Int)

/-- The first place of the table that passes a test. -/
def firstConn (conns : Nat → RtdbdConn) (test : RtdbdConn → Bool) : Option Nat :=
  (List.range rtdbdMaxClients).find? fun k => test (conns k)

/-- The entries of `fds` for the connections of the table. -/
def polledFds (conns : Nat → RtdbdConn) : List PollFd :=
  (List.range rtdbdMaxClients).filterMap fun k =>
    if 0 ≤ (conns k).fd then some ⟨(conns k).fd, decide (0 < (conns k).outq.count)⟩ else none

namespace PollLoop

/-- The loop as it is entered: `conn_init` on every place. -/
def start (d : Rtdbd) (opened : List Int) : PollLoop where
  loop := .start { d with conns := fun _ => connInit }
  opened := opened
  listening := false
  fds := []
  history := []

/-- The connection in a place. -/
def conn (s : PollLoop) (k : Nat) : RtdbdConn := s.loop.d.conns k

/-- An event happens. -/
def moved (s : PollLoop) (e : LoopEvent) : PollLoop :=
  { s with loop := s.loop.after e, history := (s.loop, e) :: s.history }

/-- `close` of a descriptor. -/
def close (s : PollLoop) (fd : Int) : PollLoop := { s with opened := s.opened.erase fd }

/-- The end of a turn on one descriptor: the request, if there is something to read. -/
def answer (s : PollLoop) (k : Nat) (fd : Int) (ready : Ready) : PollLoop :=
  if ready.pollin then
    let next := s.moved (.request k ready.input ready.room ready.env)
    if (s.loop.handled k ready.input ready.room ready.env).fate = .keep then next
    else next.close fd
  else s

/-- What is done for one entry of `fds`. -/
def serve (s : PollLoop) (p : PollFd) (ready : Ready) : PollLoop :=
  match firstConn s.loop.d.conns fun c => c.fd == p.fd with
  | none => s
  | some k =>
      if ready.pollout ∧ p.pollout ∧ 0 < (s.conn k).outq.count then
        let next := s.moved (.flush k ready.results ready.now)
        if (outqFlush ready.results (s.conn k) s.loop.d.stats ready.now).2.2.2 then
          next.answer k p.fd ready
        else next.close p.fd
      else s.answer k p.fd ready

/-- A step can be taken: `accept` comes right behind `poll` and returns a descriptor
that is not open, and nobody else closes the descriptor of a connection. -/
def Enabled (s : PollLoop) : PollEvent → Prop
  | .poll => s.fds = []
  | .accept cfd => s.listening = true ∧ 0 ≤ cfd ∧ cfd ∉ s.opened
  | .serve _ => s.fds ≠ []
  | .openElsewhere fd => fd ∉ s.opened
  | .closeElsewhere fd => ∀ k < rtdbdMaxClients, (s.conn k).fd ≠ fd

instance (s : PollLoop) : ∀ e, Decidable (s.Enabled e)
  | .poll => inferInstanceAs (Decidable (s.fds = []))
  | .accept cfd =>
      inferInstanceAs (Decidable (s.listening = true ∧ 0 ≤ cfd ∧ cfd ∉ s.opened))
  | .serve _ => inferInstanceAs (Decidable (s.fds ≠ []))
  | .openElsewhere fd => inferInstanceAs (Decidable (fd ∉ s.opened))
  | .closeElsewhere fd =>
      inferInstanceAs (Decidable (∀ k < rtdbdMaxClients, (s.conn k).fd ≠ fd))

/-- What a step makes of the loop. -/
def after (s : PollLoop) : PollEvent → PollLoop
  | .poll => { s with listening := true, fds := polledFds s.loop.d.conns }
  | .accept cfd =>
      match firstConn s.loop.d.conns fun c => decide (c.fd < 0) with
      | none => { s with listening := false }
      | some k => { s.moved (.accept k cfd) with opened := cfd :: s.opened, listening := false }
  | .serve ready =>
      match s.fds with
      | [] => s
      | p :: rest => { s.serve p ready with listening := false, fds := rest }
  | .openElsewhere fd => { s with opened := fd :: s.opened }
  | .closeElsewhere fd => s.close fd

/-- A run of the loop. -/
abbrev Runs (init : PollLoop) : List (PollLoop × PollEvent) → PollLoop → Prop :=
  Trace Enabled after init

end PollLoop

/-! ## Looking through the table -/

section

variable {conns : Nat → RtdbdConn} {test : RtdbdConn → Bool} {k : Nat}

theorem firstConn_some (h : firstConn conns test = some k) :
    k < rtdbdMaxClients ∧ test (conns k) = true ∧ ∀ i, i < k → test (conns i) = false := by
  obtain ⟨htest, i, hi, hget, hbefore⟩ := List.find?_eq_some_iff_getElem.mp h
  rw [List.length_range] at hi
  rw [List.getElem_range] at hget
  subst hget
  refine ⟨hi, htest, fun j hj => ?_⟩
  have hnot := hbefore j hj
  rw [List.getElem_range] at hnot
  exact (Bool.not_eq_true' _).mp hnot

theorem polledFds_open {p : PollFd} (h : p ∈ polledFds conns) : 0 ≤ p.fd := by
  obtain ⟨k, -, hk⟩ := List.mem_filterMap.mp h
  split at hk
  next hopen =>
    obtain rfl := Option.some.inj hk
    exact hopen
  next => cases hk

end

/-! ## Descriptors -/

/-- The connections of the table hold descriptors that are open, each its own. -/
structure Holds (conns : Nat → RtdbdConn) (opened : List Int) : Prop where
  opened : ∀ k < rtdbdMaxClients, 0 ≤ (conns k).fd → (conns k).fd ∈ opened
  distinct : ∀ i < rtdbdMaxClients, ∀ j < rtdbdMaxClients, 0 ≤ (conns i).fd →
    (conns i).fd = (conns j).fd → i = j

namespace Holds

variable {conns conns' : Nat → RtdbdConn} {opened : List Int} {k : Nat} {fd : Int}

theorem free (hfree : ∀ k, (conns k).fd < 0) : Holds conns opened where
  opened := fun k _ hopen => absurd (hfree k) (Int.not_lt.mpr hopen)
  distinct := fun i _ _ _ hopen => absurd (hfree i) (Int.not_lt.mpr hopen)

/-- The descriptors stay where they are. -/
theorem same (h : Holds conns opened) (hsame : ∀ k, (conns' k).fd = (conns k).fd) :
    Holds conns' opened := by
  constructor
  · intro k hk hopen
    rw [hsame] at hopen ⊢
    exact h.opened k hk hopen
  · intro i hi j hj hopen heq
    rw [hsame] at hopen heq
    rw [hsame] at heq
    exact h.distinct i hi j hj hopen heq

/-- A place is given a descriptor that was not open. -/
theorem placed (h : Holds conns opened) (hnew : fd ∉ opened) (hself : (conns' k).fd = fd)
    (hother : ∀ j, j ≠ k → (conns' j).fd = (conns j).fd) : Holds conns' (fd :: opened) := by
  have hheld : ∀ j < rtdbdMaxClients, j ≠ k → 0 ≤ fd → (conns j).fd ≠ fd := by
    rintro j hj - hfd rfl
    exact hnew (h.opened j hj hfd)
  constructor
  · intro j hj hopen
    rcases Decidable.em (j = k) with rfl | hne
    · rw [hself]
      exact List.mem_cons_self
    · rw [hother j hne] at hopen ⊢
      exact List.mem_cons_of_mem _ (h.opened j hj hopen)
  · intro i hi j hj hopen heq
    rcases Decidable.em (i = k) with rfl | hine
    · rcases Decidable.em (j = i) with rfl | hjne
      · rfl
      · rw [hself] at hopen heq
        rw [hother j hjne] at heq
        exact absurd heq.symm (hheld j hj hjne hopen)
    · rw [hother i hine] at hopen heq
      rcases Decidable.em (j = k) with rfl | hjne
      · rw [hself] at heq
        exact absurd heq (hheld i hi hine (heq ▸ hopen))
      · rw [hother j hjne] at heq
        exact h.distinct i hi j hj hopen heq

/-- The descriptor of a place is closed and the place is free. -/
theorem closed (h : Holds conns opened) (hk : k < rtdbdMaxClients) (hfd : (conns k).fd = fd)
    (hself : (conns' k).fd < 0) (hother : ∀ j, j ≠ k → (conns' j).fd = (conns j).fd) :
    Holds conns' (opened.erase fd) := by
  have hne : ∀ j, 0 ≤ (conns' j).fd → j ≠ k := by
    rintro j hopen rfl
    exact absurd hself (Int.not_lt.mpr hopen)
  constructor
  · intro j hj hopen
    have hjk := hne j hopen
    rw [hother j hjk] at hopen ⊢
    refine (List.mem_erase_of_ne ?_).mpr (h.opened j hj hopen)
    intro heq
    exact hjk (h.distinct j hj k hk hopen (heq.trans hfd.symm))
  · intro i hi j hj hopen heq
    have hik := hne i hopen
    have hjk := hne j (heq ▸ hopen)
    rw [hother i hik] at hopen heq
    rw [hother j hjk] at heq
    exact h.distinct i hi j hj hopen heq

/-- Nobody else's descriptors matter. -/
theorem elsewhere (h : Holds conns opened)
    (hfree : ∀ k < rtdbdMaxClients, (conns k).fd ≠ fd) : Holds conns (opened.erase fd) where
  opened := fun k hk hopen =>
    (List.mem_erase_of_ne (hfree k hk)).mpr (h.opened k hk hopen)
  distinct := h.distinct

end Holds

/-! ## Runs -/

/-- Whether a flush keeps its connection is decided by its sends. -/
theorem outqFlush_fate (results : List SendResult) (c : RtdbdConn) (st : RtdbdStats) (now : Nat) :
    (outqFlush results c st now).2.2.2 = (outqFlushLoop results c.outq).2.2 := by
  unfold outqFlush
  split
  next hloop => rw [hloop]
  next hloop => rw [hloop]

/-- What holds between two steps of a run. -/
structure Sound (init s : PollLoop) : Prop where
  runs : EventLoop.Runs init.loop s.history s.loop
  holds : Holds s.loop.d.conns s.opened
  polled : ∀ p ∈ s.fds, 0 ≤ p.fd

namespace Sound

variable {init s : PollLoop} {k : Nat} {fd : Int}

theorem answer (h : Sound init s) (hk : k < rtdbdMaxClients) (hfd : (s.conn k).fd = fd)
    (hopen : 0 ≤ fd) (ready : Ready) : Sound init (s.answer k fd ready) := by
  have hlive : s.loop.Live k := ⟨hk, hfd ▸ hopen⟩
  have hruns := h.runs.next (.request k ready.input ready.room ready.env) hlive
  have hother : ∀ j, j ≠ k →
      ((s.loop.after (.request k ready.input ready.room ready.env)).d.conns j).fd =
        (s.loop.d.conns j).fd := fun j hne =>
    (s.loop.after_conn_of_ne (e := .request k ready.input ready.room ready.env) hne).fd
  unfold PollLoop.answer
  split
  case isFalse => exact h
  case isTrue =>
    dsimp only
    split
    case isTrue hkeep =>
      refine ⟨hruns, h.holds.same fun j => ?_, h.polled⟩
      rw [PollLoop.moved, EventLoop.after_request_keep hkeep]
      exact (handleRequest_conns _ _ _ _ j).fd
    case isFalse hclose =>
      refine ⟨hruns, h.holds.closed hk hfd ?_ hother, h.polled⟩
      show ((s.loop.after _).d.conns k).fd < 0
      rw [EventLoop.after_request_close hclose]
      exact Int.not_le.mp connInit_closed

/-- The descriptors behind a flush that keeps its connection. -/
theorem flush_kept_fd {results : List SendResult} {now : Nat}
    (hkept : (outqFlush results (s.conn k) s.loop.d.stats now).2.2.2 = true) (j : Nat) :
    ((s.moved (.flush k results now)).conn j).fd = (s.conn j).fd := by
  rcases Decidable.em (j = k) with rfl | hne
  · rw [outqFlush_fate, PollLoop.conn] at hkept
    have hself := (s.loop.after_flush j results now).2
    rw [if_pos hkept] at hself
    rw [PollLoop.conn, PollLoop.moved, hself]
    rfl
  · exact (s.loop.after_conn_of_ne (e := .flush k results now) hne).fd

theorem serve (h : Sound init s) {p : PollFd} (hp : 0 ≤ p.fd) (ready : Ready) :
    Sound init (s.serve p ready) := by
  unfold PollLoop.serve
  split
  case h_1 => exact h
  case h_2 k hfound =>
    obtain ⟨hk, htest, -⟩ := firstConn_some hfound
    have hfd : (s.conn k).fd = p.fd := beq_iff_eq.mp htest
    split
    case isFalse => exact h.answer hk hfd hp ready
    case isTrue hflush =>
      have hlive : s.loop.Live k := ⟨hk, hfd ▸ hp⟩
      have hruns := h.runs.next (.flush k ready.results ready.now) ⟨hlive, hflush.2.2⟩
      dsimp only
      split
      case isTrue hkept =>
        have hsame := flush_kept_fd hkept
        have hsound : Sound init (s.moved (.flush k ready.results ready.now)) :=
          ⟨hruns, h.holds.same hsame, h.polled⟩
        exact hsound.answer hk ((hsame k).trans hfd) hp ready
      case isFalse hlost =>
        rw [outqFlush_fate, PollLoop.conn] at hlost
        refine ⟨hruns, h.holds.closed hk hfd ?_ fun j hne =>
          (s.loop.after_conn_of_ne (e := .flush k ready.results ready.now) hne).fd, h.polled⟩
        show ((s.loop.after _).d.conns k).fd < 0
        rw [(s.loop.after_flush k ready.results ready.now).2, if_neg hlost]
        exact Int.not_le.mp connInit_closed

theorem after (h : Sound init s) {e : PollEvent} (hcan : s.Enabled e) :
    Sound init (s.after e) := by
  cases e with
  | poll => exact ⟨h.runs, h.holds, fun p hp => polledFds_open hp⟩
  | accept cfd =>
      obtain ⟨-, hcfd, hnew⟩ := hcan
      unfold PollLoop.after
      dsimp only
      split
      case h_1 => exact ⟨h.runs, h.holds, h.polled⟩
      case h_2 k hfound =>
        obtain ⟨hk, hfree, hbefore⟩ := firstConn_some hfound
        have henabled : s.loop.Enabled (.accept k cfd) := by
          refine ⟨hk, of_decide_eq_true hfree, fun i hi => ?_, hcfd⟩
          exact Int.not_lt.mp (of_decide_eq_false (hbefore i hi))
        refine ⟨h.runs.next _ henabled, h.holds.placed (k := k) hnew ?_ fun j hne => ?_, h.polled⟩
        · exact congrArg RtdbdConn.fd (s.loop.after_accept_conn k cfd)
        · exact (s.loop.after_conn_of_ne (e := .accept k cfd) hne).fd
  | serve ready =>
      unfold PollLoop.after
      dsimp only
      split
      case h_1 => exact h
      case h_2 p rest hfds =>
        have hsound := h.serve (h.polled p (hfds ▸ List.mem_cons_self)) ready
        exact ⟨hsound.runs, hsound.holds, fun q hq =>
          h.polled q (hfds ▸ List.mem_cons_of_mem _ hq)⟩
  | openElsewhere fd =>
      exact ⟨h.runs, ⟨fun k hk hopen => List.mem_cons_of_mem _ (h.holds.opened k hk hopen),
        h.holds.distinct⟩, h.polled⟩
  | closeElsewhere fd => exact ⟨h.runs, h.holds.elsewhere hcan, h.polled⟩

end Sound

/-- The loop and its events are sound at the end of every run. -/
theorem sound {d : Rtdbd} {opened : List Int} {past : List (PollLoop × PollEvent)} {s : PollLoop}
    (hrun : PollLoop.Runs (.start d opened) past s) : Sound (.start d opened) s := by
  refine hrun.invariant_state ⟨.start, .free fun _ => Int.not_le.mp connInit_closed, ?_⟩
    fun _ _ h hcan => h.after hcan
  exact fun p hp => absurd hp List.not_mem_nil

/-! ## The queues -/

namespace PollLoop

variable {s : PollLoop}

theorem answer_queued (h : Tidy s.history s.loop) (k : Nat) (fd : Int) (ready : Ready) (j : Nat) :
    Queued (subscribedIn s.history j) (s.conn j).outq.toList
      ((s.answer k fd ready).conn j).outq.toList := by
  have hqueued := h.queued (.request k ready.input ready.room ready.env) j
  unfold answer
  split
  · dsimp only
    split
    · exact hqueued
    · exact hqueued
  · exact .left List.suffix_rfl

/-- A flush does not change what the connections are subscribed to. -/
theorem serve_queued (h : Tidy s.history s.loop) {p : PollFd} (hp : 0 ≤ p.fd) (ready : Ready)
    (j : Nat) :
    Queued (subscribedIn s.history j) (s.conn j).outq.toList
      ((s.serve p ready).conn j).outq.toList := by
  unfold serve
  split
  case h_1 => exact .left List.suffix_rfl
  case h_2 k hfound =>
    obtain ⟨hk, htest, -⟩ := firstConn_some hfound
    have hlive : s.loop.Live k := ⟨hk, (beq_iff_eq.mp htest) ▸ hp⟩
    have hsuffix := after_flush_suffix s.loop k ready.results ready.now j
    split
    case isFalse => exact answer_queued h k p.fd ready j
    case isTrue hflush =>
      dsimp only
      split
      case isTrue =>
        have htidy : Tidy (s.moved (.flush k ready.results ready.now)).history
            (s.moved (.flush k ready.results ready.now)).loop :=
          h.flush ready.results ready.now hlive
        exact .of_suffix hsuffix (answer_queued htidy k p.fd ready j)
      case isFalse => exact .left hsuffix

/-- Every step of the loop treats the queues so. -/
theorem after_queued {init : PollLoop} (hsound : Sound init s) (h : Tidy s.history s.loop)
    (e : PollEvent) (j : Nat) :
    Queued (subscribedIn s.history j) (s.conn j).outq.toList
      ((s.after e).conn j).outq.toList := by
  cases e with
  | poll => exact .left List.suffix_rfl
  | openElsewhere fd => exact .left List.suffix_rfl
  | closeElsewhere fd => exact .left List.suffix_rfl
  | accept cfd =>
      unfold after
      dsimp only
      split
      case h_1 => exact .left List.suffix_rfl
      case h_2 k _ => exact h.queued (.accept k cfd) j
  | serve ready =>
      unfold after
      dsimp only
      split
      case h_1 => exact .left List.suffix_rfl
      case h_2 p rest hfds =>
        exact serve_queued h (hsound.polled p (hfds ▸ List.mem_cons_self)) ready j

end PollLoop

/-! ## The table over a run -/

/-- The connection table is consistent: free places are those of `conn_init`, and so is
the one a new connection is given; the subscriptions of a place are distinct and not too
many; `conn_table_check` finds nothing, now and at every event so far; the descriptors
are distinct; and what is queued next is for points the connection is subscribed to. -/
structure Consistent (s : PollLoop) : Prop where
  free : ∀ k < rtdbdMaxClients, (s.conn k).fd < 0 → s.conn k = connInit
  given : ∀ cfd k, firstConn s.loop.d.conns (fun c => decide (c.fd < 0)) = some k →
    s.conn k = connInit ∧ (s.after (.accept cfd)).conn k = { connInit with fd := cfd }
  nodup : ∀ k < rtdbdMaxClients, (s.conn k).subs.Nodup
  bounded : ∀ k < rtdbdMaxClients, (s.conn k).subs.length ≤ rtdbdSubMax
  checked : connTableCheck s.loop.d.conns rtdbdMaxClients = true
  checkedAt : ∀ step ∈ s.history, connTableCheck step.1.d.conns rtdbdMaxClients = true
  distinct : ∀ i < rtdbdMaxClients, ∀ j < rtdbdMaxClients, 0 ≤ (s.conn i).fd →
    (s.conn i).fd = (s.conn j).fd → i = j
  notified : ∀ e, s.Enabled e → ∀ k < rtdbdMaxClients,
    Queued (subscribedIn s.history k) (s.conn k).outq.toList
      ((s.after e).conn k).outq.toList

/-- **The connection table.**  Whatever connections come and go, whatever they ask for
and whichever of their descriptors is handed out again, the table stays consistent. -/
theorem tableConsistent {d : Rtdbd} {opened : List Int} {past : List (PollLoop × PollEvent)}
    {s : PollLoop} (hrun : PollLoop.Runs (.start d opened) past s) : Consistent s := by
  have hsound := sound hrun
  have hstart : ∀ j, (PollLoop.start d opened).loop.d.conns j = connInit := fun _ => rfl
  have htidy : Tidy s.history s.loop := tidy hstart hsound.runs
  constructor
  · exact fun k _ => htidy.free k
  · intro cfd k hfound
    obtain ⟨-, hfree, -⟩ := firstConn_some hfound
    refine ⟨htidy.free k (of_decide_eq_true hfree), ?_⟩
    rw [PollLoop.after]
    dsimp only
    rw [hfound]
    exact s.loop.after_accept_conn k cfd
  · exact fun k _ => (htidy.subs k).nodup
  · exact fun k _ => (htidy.subs k).length_le
  · exact htidy.checked
  · intro step hstep
    obtain ⟨past', hrun', -⟩ := hsound.runs.before hstep
    exact (tidy hstart hrun').checked
  · exact hsound.holds.distinct
  · exact fun e _ k _ => PollLoop.after_queued hsound htidy e k

/-- A client subscribes to point 0, another one writes it, the first is lost in a flush
and its descriptor goes to a third. -/
def reused : List PollEvent :=
  [.poll, .accept 5, .poll, .accept 6, .serve ⟨false, true, [], 1, subscribeZero, none, operator⟩,
    .poll, .serve ⟨false, false, [], 2, [], none, operator⟩,
    .serve ⟨false, true, [], 2, writeZero, none, operator⟩,
    .poll, .serve ⟨true, true, [.failed], 3, [], none, operator⟩,
    .serve ⟨false, false, [], 3, [], none, operator⟩, .poll, .accept 5]

theorem tableConsistent_reused :
    Consistent (reused.foldl PollLoop.after (.start entered [3, 4])) := by
  have hstart : PollLoop.Runs (.start entered [3, 4]) [] (.start entered [3, 4]) := .start
  exact tableConsistent (hstart.follow reused (by decide +kernel))

end InduRtdb.Daemon
