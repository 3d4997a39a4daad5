/-
  Daemon/Shutdown.lean --- how the daemon stops: its queues are drained for a second at
  most, and what is left is counted.

  Source: the end of `main` of `rtdbd/src/rtdbd.c`.

  A flush that fails leaves its connection open here, with an empty queue: nothing is
  pushed any more, so the frame it has cut is the last thing on the wire.
-/
import InduRtdb.Daemon.Counters

set_option autoImplicit false

namespace InduRtdb.Daemon

open InduRtdb.Core InduRtdb.Api InduRtdb.Lib

/-! ## The drain -/

abbrev rtdbdShutdownDelaySec : Nat := 1

/-- What `poll` reports for one connection, and the sends of its flush at time `now`. -/
structure DrainAnswer where
  pollout : Bool
  results : List SendResult
  now : Nat

/-- What one `poll` of the drain reports. -/
inductive DrainPoll where
  | eintr
  | failed
  | ready (answers : List DrainAnswer)

namespace EventLoop

/-- A connection that is open and has something to send. -/
def Pending (s : EventLoop) (k : Nat) : Prop :=
  0 ≤ (s.d.conns k).fd ∧ 0 < (s.d.conns k).outq.count

instance (s : EventLoop) (k : Nat) : Decidable (s.Pending k) := inferInstanceAs (Decidable (_ ∧ _))

/-- The places that are polled. -/
def drainPlaces (s : EventLoop) : List Nat :=
  (List.range rtdbdMaxClients).filter fun k => decide (s.Pending k)

/-- The descriptors of `pfd`. -/
def drainFds (s : EventLoop) : List Int := s.drainPlaces.map fun k => (s.d.conns k).fd

/-- `outq_flush` of the connection in a place, which stays open. -/
def flushHere (s : EventLoop) (k : Nat) (results : List SendResult) (now : Nat) : EventLoop :=
  let flushed := outqFlush results (s.d.conns k) s.d.stats now
  { d :=
      { s.d with
        conns := Function.update s.d.conns k flushed.2.1
        stats := flushed.2.2.1 }
    wire := Function.update s.wire k (s.wire k ++ flushed.1) }

/-- One entry of `pfd`: the first connection with this descriptor and something to send
is flushed. -/
def drainOne (s : EventLoop) (entry : Int × DrainAnswer) : EventLoop :=
  if entry.2.pollout then
    match (List.range rtdbdMaxClients).find? fun k =>
        decide ((s.d.conns k).fd = entry.1 ∧ 0 < (s.d.conns k).outq.count) with
    | some k => s.flushHere k entry.2.results entry.2.now
    | none => s
  else s

/-- The connections that `poll` reports on, one after the other. -/
def drainTurn (s : EventLoop) (answers : List DrainAnswer) : EventLoop :=
  (s.drainFds.zip answers).foldl drainOne s

/-- The loop of the drain, with `deadline` milliseconds left: the queues it leaves, or
`none` where it would poll once more. -/
def drainLoop : List DrainPoll → Nat → EventLoop → Option EventLoop
  | polls, deadline, s =>
      if deadline = 0 then some s
      else if s.drainFds = [] then some s
      else
        match polls with
        | [] => none
        | .failed :: _ => some s
        | .eintr :: polls => drainLoop polls (deadline - min deadline 100) s
        | .ready answers :: polls =>
            drainLoop polls (deadline - min deadline 100) (s.drainTurn answers)

/-- `conn_discard_outq` of the connection in a place, which then has its time. -/
def discardHere (clock : Nat → Nat) (s : EventLoop) (k : Nat) : EventLoop :=
  let discarded := (s.d.conns k).discardOutq s.d.stats (clock k)
  { s with
    d :=
      { s.d with
        conns := Function.update s.d.conns k discarded.1
        stats := discarded.2 } }

/-- From the end of the event loop to the end of the daemon. -/
def shutdown (polls : List DrainPoll) (clock : Nat → Nat) (s : EventLoop) : Option EventLoop :=
  (drainLoop polls (rtdbdShutdownDelaySec * 1000) s).map fun s =>
    (List.range rtdbdMaxClients).foldl (discardHere clock) s

end EventLoop

/-! ## What becomes of one queue -/

/-- The bytes sent of the oldest frame. -/
def Outq.part (q : Outq) : List UInt8 := (q.buf q.head).frame.take q.sent

/-- The queue `q₀` has become `q`, and `bytes` have been sent of it: the notifications
`sent` as a whole and in order; and `lost` are those given up, at most the first of them
after some of its bytes. -/
inductive SlotDrain (q₀ q : Outq) (bytes : List UInt8) (sent lost : List RtdbdNotify) : Prop where
  | going (all : q₀.toList = sent ++ q.toList) (none : lost = [])
      (framed : q₀.part ++ bytes = sent.flatMap RtdbdNotify.frame ++ q.part)
  | ended (all : q₀.toList = sent ++ lost) (empty : q.count = 0) {part : List UInt8}
      (framed : q₀.part ++ bytes = sent.flatMap RtdbdNotify.frame ++ part)
      (begun : part <+: (lost.take 1).flatMap RtdbdNotify.frame)
      (cut : part.length < rtdbdNotifyFrameLen)

theorem Outq.toList_of_empty {q : Outq} (hempty : q.count = 0) : q.toList = [] := by
  apply List.length_eq_zero_iff.mp
  rw [q.length_toList, hempty]

/-- What has been sent of the oldest frame is less than the frame. -/
theorem Outq.part_prefix (q : Outq) : q.part <+: (q.toList.take 1).flatMap RtdbdNotify.frame := by
  rcases Nat.eq_zero_or_pos q.count with hempty | hpos
  · rw [Outq.part, q.sent_zero hempty, List.take_zero]
    exact List.nil_prefix
  · rw [q.toList_eq_cons hpos, List.take_succ_cons, List.take_zero, List.flatMap_cons,
      List.flatMap_nil, List.append_nil]
    exact List.take_prefix _ _

theorem Outq.length_part (q : Outq) : q.part.length < rtdbdNotifyFrameLen := by
  rw [Outq.part, List.length_take]
  exact Nat.lt_of_le_of_lt (Nat.min_le_left _ _) q.sent_lt

namespace SlotDrain

variable {q₀ q : Outq} {bytes : List UInt8} {sent lost : List RtdbdNotify}

/-- The queue as it is found. -/
theorem start (q : Outq) : SlotDrain q q [] [] [] := .going rfl rfl (List.append_nil _)

/-- A queue that is not empty has lost nothing. -/
theorem going_of_pos (h : SlotDrain q₀ q bytes sent lost) (hpos : 0 < q.count) :
    q₀.toList = sent ++ q.toList ∧ lost = [] ∧
      q₀.part ++ bytes = sent.flatMap RtdbdNotify.frame ++ q.part := by
  cases h with
  | going all none framed => exact ⟨all, none, framed⟩
  | ended _ empty => omega

/-- Some more of the queue is sent. -/
theorem flush (h : SlotDrain q₀ q bytes sent lost) (hpos : 0 < q.count) {q' : Outq}
    {more : List UInt8} {done : List RtdbdNotify} (hlist : q.toList = done ++ q'.toList)
    (hbytes : q.part ++ more = done.flatMap RtdbdNotify.frame ++ q'.part) :
    SlotDrain q₀ q' (bytes ++ more) (sent ++ done) lost := by
  obtain ⟨all, none, framed⟩ := h.going_of_pos hpos
  refine .going ?_ none ?_
  · rw [all, hlist, List.append_assoc]
  · rw [← List.append_assoc, framed, List.append_assoc, hbytes, List.flatMap_append,
      List.append_assoc]

/-- What is in the queue is given up. -/
theorem discard (h : SlotDrain q₀ q bytes sent lost) :
    SlotDrain q₀ q.discard bytes sent (lost ++ q.toList) := by
  cases h with
  | going all none framed =>
      subst none
      exact .ended all rfl framed q.part_prefix q.length_part
  | ended all empty framed begun cut =>
      rw [Outq.toList_of_empty empty, List.append_nil]
      exact .ended all rfl framed begun cut

end SlotDrain

/-! ## What becomes of all of them -/

/-- The loop has gone from `s` to `t`; all that is given up is counted. -/
structure Drains (s t : EventLoop) (sent lost : Nat → List RtdbdNotify) : Prop where
  slot : ∀ k, ∃ bytes, t.wire k = s.wire k ++ bytes ∧
    SlotDrain (s.d.conns k).outq (t.d.conns k).outq bytes (sent k) (lost k)
  fd : ∀ k, (t.d.conns k).fd = (s.d.conns k).fd
  drop : t.d.stats.notifyDrop =
    s.d.stats.notifyDrop + ∑ k ∈ Finset.range rtdbdMaxClients, (lost k).length

/-- More is lost in one place. -/
theorem sum_lost_update {lost : Nat → List RtdbdNotify} {k : Nat} (hk : k < rtdbdMaxClients)
    (more : List RtdbdNotify) :
    ∑ j ∈ Finset.range rtdbdMaxClients, (Function.update lost k (lost k ++ more) j).length =
      (∑ j ∈ Finset.range rtdbdMaxClients, (lost j).length) + more.length := by
  have hmem : k ∈ Finset.range rtdbdMaxClients := Finset.mem_range.mpr hk
  have hrest : ∑ j ∈ (Finset.range rtdbdMaxClients).erase k,
        (Function.update lost k (lost k ++ more) j).length =
      ∑ j ∈ (Finset.range rtdbdMaxClients).erase k, (lost j).length := by
    refine Finset.sum_congr rfl fun j hj => ?_
    rw [Function.update_of_ne (Finset.ne_of_mem_erase hj)]
  rw [← Finset.add_sum_erase _ _ hmem, ← Finset.add_sum_erase _ (fun j => (lost j).length) hmem,
    hrest, Function.update_self, List.length_append]
  omega

namespace Drains

variable {s t : EventLoop} {sent lost : Nat → List RtdbdNotify}

theorem start (s : EventLoop) : Drains s s (fun _ => []) fun _ => [] where
  slot := fun _ => ⟨[], (List.append_nil _).symm, .start _⟩
  fd := fun _ => rfl
  drop := by simp

/-- The queue of one place goes on, and what it gives up is counted. -/
theorem move (h : Drains s t sent lost) {k : Nat} (hk : k < rtdbdMaxClients) (c : RtdbdConn)
    (st : RtdbdStats) (bytes : List UInt8) (done more : List RtdbdNotify)
    (hfd : c.fd = (t.d.conns k).fd)
    (hslot : ∀ before, SlotDrain (s.d.conns k).outq (t.d.conns k).outq before (sent k) (lost k) →
      SlotDrain (s.d.conns k).outq c.outq (before ++ bytes) (sent k ++ done) (lost k ++ more))
    (hdrop : st.notifyDrop = t.d.stats.notifyDrop + more.length) :
    Drains s
      { d := { t.d with conns := Function.update t.d.conns k c, stats := st }
        wire := Function.update t.wire k (t.wire k ++ bytes) }
      (Function.update sent k (sent k ++ done)) (Function.update lost k (lost k ++ more)) := by
  constructor
  · intro j
    obtain ⟨before, hwire, hdrain⟩ := h.slot j
    dsimp only
    rcases eq_or_ne j k with rfl | hne
    · refine ⟨before ++ bytes, ?_, ?_⟩
      · rw [Function.update_self, hwire, List.append_assoc]
      · simp only [Function.update_self]
        exact hslot before hdrain
    · refine ⟨before, ?_, ?_⟩
      · rw [Function.update_of_ne hne, hwire]
      · simp only [Function.update_of_ne hne]
        exact hdrain
  · intro j
    dsimp only
    rcases eq_or_ne j k with rfl | hne
    · rw [Function.update_self, hfd, h.fd j]
    · rw [Function.update_of_ne hne, h.fd j]
  · rw [sum_lost_update hk more, ← Nat.add_assoc, ← h.drop]
    exact hdrop

/-- A flush of the drain. -/
theorem flushHere (h : Drains s t sent lost) {k : Nat} (hk : k < rtdbdMaxClients)
    (hpos : 0 < (t.d.conns k).outq.count) (results : List SendResult) (now : Nat) :
    ∃ sent lost, Drains s (t.flushHere k results now) sent lost := by
  obtain ⟨done, hlist, hbytes⟩ := outqFlushLoop_frames results (t.d.conns k).outq
  rcases hloop : outqFlushLoop results (t.d.conns k).outq with ⟨bytes, q, _ | _⟩
  · rw [hloop] at hlist hbytes
    have hlost := h.move hk (outqFlush results (t.d.conns k) t.d.stats now).2.1
      (outqFlush results (t.d.conns k) t.d.stats now).2.2.1 bytes done q.toList ?_ ?_ ?_
    · have hsent : (outqFlush results (t.d.conns k) t.d.stats now).1 = bytes := by
        simp only [outqFlush, hloop]
      unfold EventLoop.flushHere
      dsimp only
      rw [hsent]
      exact ⟨_, _, hlost⟩
    · simp only [outqFlush, hloop, RtdbdConn.discardOutq]
    · intro before hdrain
      simp only [outqFlush, hloop, RtdbdConn.discardOutq]
      exact (hdrain.flush hpos hlist hbytes).discard
    · simp only [outqFlush, hloop, RtdbdStats.noteError]
      rw [discardOutq_notifyDrop, q.length_toList]
  · rw [hloop] at hlist hbytes
    have hkept := h.move hk { t.d.conns k with outq := q } t.d.stats bytes done [] rfl ?_ rfl
    · unfold EventLoop.flushHere
      simp only [outqFlush, hloop]
      exact ⟨_, _, hkept⟩
    · intro before hdrain
      rw [List.append_nil]
      exact hdrain.flush hpos hlist hbytes

/-- A turn of the drain only flushes. -/
theorem drainOne (h : Drains s t sent lost) (entry : Int × DrainAnswer) :
    ∃ sent lost, Drains s (t.drainOne entry) sent lost := by
  unfold EventLoop.drainOne
  split
  · split
    next k hfound =>
      have hk := List.mem_range.mp (List.mem_of_find?_eq_some hfound)
      have hpred := List.find?_some hfound
      exact h.flushHere hk (of_decide_eq_true hpred).2 entry.2.results entry.2.now
    next => exact ⟨sent, lost, h⟩
  · exact ⟨sent, lost, h⟩

theorem drainTurn (h : Drains s t sent lost) (answers : List DrainAnswer) :
    ∃ sent lost, Drains s (t.drainTurn answers) sent lost := by
  unfold EventLoop.drainTurn
  generalize t.drainFds.zip answers = entries
  induction entries generalizing t sent lost with
  | nil => exact ⟨sent, lost, h⟩
  | cons entry entries ih =>
      obtain ⟨sent, lost, hone⟩ := h.drainOne entry
      exact ih hone

theorem drainLoop (h : Drains s t sent lost) (polls : List DrainPoll) (deadline : Nat)
    {t' : EventLoop} (hloop : EventLoop.drainLoop polls deadline t = some t') :
    ∃ sent lost, Drains s t' sent lost := by
  induction polls generalizing t sent lost deadline with
  | nil =>
      unfold EventLoop.drainLoop at hloop
      split at hloop
      · exact Option.some.inj hloop ▸ ⟨sent, lost, h⟩
      · split at hloop
        · exact Option.some.inj hloop ▸ ⟨sent, lost, h⟩
        · cases hloop
  | cons poll polls ih =>
      unfold EventLoop.drainLoop at hloop
      split at hloop
      · exact Option.some.inj hloop ▸ ⟨sent, lost, h⟩
      · split at hloop
        · exact Option.some.inj hloop ▸ ⟨sent, lost, h⟩
        · cases poll with
          | eintr => exact ih h _ hloop
          | failed => exact Option.some.inj hloop ▸ ⟨sent, lost, h⟩
          | ready answers =>
              obtain ⟨sent, lost, hturn⟩ := h.drainTurn answers
              exact ih hturn _ hloop

/-- One place is discarded. -/
theorem discardHere (h : Drains s t sent lost) (clock : Nat → Nat) {k : Nat}
    (hk : k < rtdbdMaxClients) : ∃ sent lost, Drains s (t.discardHere clock k) sent lost := by
  have hmoved := h.move hk ((t.d.conns k).discardOutq t.d.stats (clock k)).1
    ((t.d.conns k).discardOutq t.d.stats (clock k)).2 [] [] (t.d.conns k).outq.toList rfl ?_ ?_
  · rw [List.append_nil, List.append_nil, Function.update_eq_self] at hmoved
    exact ⟨_, _, hmoved⟩
  · intro before hdrain
    rw [List.append_nil, List.append_nil]
    exact hdrain.discard
  · rw [discardOutq_notifyDrop, Outq.length_toList]

/-- The places are discarded one after the other. -/
theorem discardAll (clock : Nat → Nat) (ks : List Nat) (hks : ∀ k ∈ ks, k < rtdbdMaxClients)
    (h : Drains s t sent lost) :
    (∃ sent lost, Drains s (ks.foldl (EventLoop.discardHere clock) t) sent lost) ∧
      ∀ k, k ∈ ks ∨ (t.d.conns k).outq.count = 0 →
        ((ks.foldl (EventLoop.discardHere clock) t).d.conns k).outq.count = 0 := by
  induction ks generalizing t sent lost with
  | nil =>
      refine ⟨⟨sent, lost, h⟩, fun k hk => ?_⟩
      rcases hk with hk | hempty
      · cases hk
      · exact hempty
  | cons k₀ ks ih =>
      obtain ⟨sent, lost, hone⟩ := h.discardHere clock (hks k₀ List.mem_cons_self)
      obtain ⟨hall, hempty⟩ := ih (fun k hk => hks k (List.mem_cons_of_mem _ hk)) hone
      refine ⟨hall, fun k hk => hempty k ?_⟩
      rcases eq_or_ne k k₀ with rfl | hne
      · right
        simp only [EventLoop.discardHere, Function.update_self]
        rfl
      · rcases hk with hk | hzero
        · exact .inl ((List.mem_cons.mp hk).resolve_left hne)
        · right
          simp only [EventLoop.discardHere, Function.update_of_ne hne]
          exact hzero

end Drains

/-- Ten polls take all of the second. -/
theorem drainLoop_ends (polls : List DrainPoll) (deadline : Nat) (s : EventLoop)
    (hlong : deadline ≤ 100 * polls.length) : ∃ t, EventLoop.drainLoop polls deadline s = some t := by
  induction polls generalizing deadline s with
  | nil =>
      unfold EventLoop.drainLoop
      exact ⟨s, if_pos (Nat.le_zero.mp hlong)⟩
  | cons poll polls ih =>
      rw [List.length_cons] at hlong
      unfold EventLoop.drainLoop
      split
      · exact ⟨s, rfl⟩
      · split
        · exact ⟨s, rfl⟩
        · cases poll with
          | eintr => exact ih _ s (by omega)
          | failed => exact ⟨s, rfl⟩
          | ready answers => exact ih _ (s.drainTurn answers) (by omega)

/-! ## The end of the daemon -/

/-- What the end of the daemon makes of a queue: the notifications `sent` go out whole and
in order, and the others are `lost`, at most the first of them behind some of its bytes. -/
structure Outq.Settled (q : Outq) (bytes : List UInt8) (sent lost : List RtdbdNotify) : Prop where
  all : q.toList = sent ++ lost
  framed : ∃ part, q.part ++ bytes = sent.flatMap RtdbdNotify.frame ++ part ∧
    part <+: (lost.take 1).flatMap RtdbdNotify.frame ∧ part.length < rtdbdNotifyFrameLen

/-- What has become of the notifications of a run that began with `d`, has come to `s` and
ends in `t`. -/
structure ShutDown (d : Rtdbd) (past : List (EventLoop × LoopEvent)) (s t : EventLoop)
    (sent lost : Nat → List RtdbdNotify) : Prop where
  slot : ∀ k, k < rtdbdMaxClients → ∃ bytes, t.wire k = s.wire k ++ bytes ∧
    (s.d.conns k).outq.Settled bytes (sent k) (lost k)
  empty : ∀ k, k < rtdbdMaxClients → (t.d.conns k).outq.count = 0
  dropped : t.d.stats.notifyDrop =
    s.d.stats.notifyDrop + ∑ k ∈ Finset.range rtdbdMaxClients, (lost k).length
  balance : (past.map fun p => p.1.pushes p.2).sum + d.stats.notifyDrop =
    (past.map fun p => p.1.delivers p.2).sum +
      (∑ k ∈ Finset.range rtdbdMaxClients, (sent k).length) + t.d.stats.notifyDrop

/-- A queue that has become empty. -/
theorem SlotDrain.settled {q₀ q : Outq} {bytes : List UInt8} {sent lost : List RtdbdNotify}
    (h : SlotDrain q₀ q bytes sent lost) (hempty : q.count = 0) : q₀.Settled bytes sent lost := by
  have hdone := h.discard
  rw [Outq.toList_of_empty hempty, List.append_nil] at hdone
  cases hdone with
  | going all none framed =>
      subst none
      refine ⟨all, [], ?_, List.nil_prefix, by decide⟩
      rw [framed]
      rfl
  | ended all _ framed begun cut => exact ⟨all, _, framed, begun, cut⟩

/-- **The daemon stops without losing a notification silently.**  Whatever its run was,
ten polls after the end of its loop it has stopped; of every queue the oldest
notifications have been sent as a whole and in order and the others are counted, so that
over the whole life of the daemon what was pushed was delivered, drained or counted. -/
theorem shutDown_of_run {d : Rtdbd} {past : List (EventLoop × LoopEvent)} {s : EventLoop}
    (hstart : ∀ j, d.conns j = connInit) (hrun : EventLoop.Runs (.start d) past s)
    (polls : List DrainPoll) (hpolls : 10 ≤ polls.length) (clock : Nat → Nat) :
    ∃ t sent lost, s.shutdown polls clock = some t ∧ ShutDown d past s t sent lost := by
  have hsecond : rtdbdShutdownDelaySec * 1000 ≤ 100 * polls.length := Nat.mul_le_mul_left 100 hpolls
  obtain ⟨drained, hdrained⟩ := drainLoop_ends polls _ s hsecond
  obtain ⟨sent, lost, hdrains⟩ := (Drains.start s).drainLoop polls _ hdrained
  obtain ⟨⟨sent, lost, hall⟩, hempty⟩ := hdrains.discardAll clock (List.range rtdbdMaxClients)
    fun k hk => List.mem_range.mp hk
  generalize hstopped : (List.range rtdbdMaxClients).foldl (EventLoop.discardHere clock) drained = t
    at hall hempty
  have hnone : ∀ k, k < rtdbdMaxClients → (t.d.conns k).outq.count = 0 :=
    fun k hk => hempty k (.inl (List.mem_range.mpr hk))
  have hslot : ∀ k, k < rtdbdMaxClients → ∃ bytes, t.wire k = s.wire k ++ bytes ∧
      (s.d.conns k).outq.Settled bytes (sent k) (lost k) := by
    intro k hk
    obtain ⟨bytes, hwire, hslot⟩ := hall.slot k
    exact ⟨bytes, hwire, hslot.settled (hnone k hk)⟩
  have hqueued : s.d.queued = (∑ k ∈ Finset.range rtdbdMaxClients, (sent k).length) +
      ∑ k ∈ Finset.range rtdbdMaxClients, (lost k).length := by
    rw [← Finset.sum_add_distrib]
    refine Finset.sum_congr rfl fun k hk => ?_
    obtain ⟨bytes, -, hsettled⟩ := hslot k (Finset.mem_range.mp hk)
    rw [← Outq.length_toList, hsettled.all, List.length_append]
  refine ⟨t, sent, lost, ?_, hslot, hnone, hall.drop, ?_⟩
  · rw [EventLoop.shutdown, hdrained, Option.map_some, hstopped]
  · have hlife := balanced_run hstart hrun
    have hdrop := hall.drop
    omega

/-- A client subscribes, is told of a write, has taken one byte of it and does not read
on when the daemon stops. -/
theorem shutDown_of_run_interruption :
    ∃ t sent lost, ((interruption.foldl EventLoop.after (.start entered)).shutdown
        (List.replicate 10 (.ready [⟨true, [.eagain], 1⟩])) fun _ => 1) = some t ∧
      ShutDown entered (Trace.passed EventLoop.after interruption (.start entered) [])
        (interruption.foldl EventLoop.after (.start entered)) t sent lost := by
  have hstart : EventLoop.Runs (.start entered) [] (.start entered) := .start
  have hrun := hstart.follow interruption (by decide +kernel)
  exact shutDown_of_run (fun _ => rfl) hrun _ (by decide) _

/-! ## Peers that read -/

/-- The sends take all that they are given, for a whole queue. -/
def Willing (results : List SendResult) : Prop :=
  rtdbdOutqCap ≤ results.length ∧ ∀ r ∈ results, ∃ n, rtdbdNotifyFrameLen ≤ n ∧ r = .took n

/-- A flush whose sends take everything empties the queue. -/
theorem outqFlushLoop_willing (results : List SendResult) (q : Outq)
    (htake : ∀ r ∈ results, ∃ n, rtdbdNotifyFrameLen ≤ n ∧ r = .took n)
    (hlong : q.count ≤ results.length) :
    (outqFlushLoop results q).2.1.count = 0 ∧ (outqFlushLoop results q).2.2 = true := by
  induction results generalizing q with
  | nil => exact ⟨Nat.le_zero.mp hlong, rfl⟩
  | cons r results ih =>
      obtain ⟨n, hn, rfl⟩ := htake r List.mem_cons_self
      unfold outqFlushLoop
      split
      next hpos =>
        have hsent := q.sent_lt
        have hmin : min n (rtdbdNotifyFrameLen - q.sent) = rtdbdNotifyFrameLen - q.sent := by omega
        dsimp only
        rw [dif_neg (by omega), if_neg (by omega)]
        refine ih (q.dropHead hpos) (fun r hr => htake r (List.mem_cons_of_mem _ hr)) ?_
        rw [List.length_cons] at hlong
        rw [Outq.count_dropHead]
        omega
      next hzero => exact ⟨Nat.eq_zero_of_not_pos hzero, rfl⟩

/-- What is left to send of a queue. -/
def Outq.rest (q : Outq) : List UInt8 := (q.toList.flatMap RtdbdNotify.frame).drop q.sent

/-- A queue that is emptied without a failure has been sent to its end. -/
theorem outqFlushLoop_rest {results : List SendResult} {q : Outq}
    (hempty : (outqFlushLoop results q).2.1.count = 0) : (outqFlushLoop results q).1 = q.rest := by
  obtain ⟨done, hlist, hbytes⟩ := outqFlushLoop_frames results q
  rw [Outq.toList_of_empty hempty, List.append_nil] at hlist
  rw [(outqFlushLoop results q).2.1.sent_zero hempty, List.take_zero, List.append_nil] at hbytes
  have hsent : q.part.length = q.sent := by
    rw [Outq.part, List.length_take, RtdbdNotify.length_frame]
    exact Nat.min_eq_left (Nat.le_of_lt q.sent_lt)
  rw [Outq.rest, hlist, ← hbytes]
  exact (List.drop_left' hsent).symm

namespace EventLoop

/-- No two connections that have something to send share a descriptor. -/
def FdsApart (s : EventLoop) : Prop :=
  ∀ j, j < rtdbdMaxClients → ∀ k, k < rtdbdMaxClients → s.Pending j → s.Pending k →
    (s.d.conns j).fd = (s.d.conns k).fd → j = k

instance (s : EventLoop) : Decidable s.FdsApart :=
  inferInstanceAs (Decidable (∀ j, j < rtdbdMaxClients → ∀ k, k < rtdbdMaxClients → _))

/-- The queue of a place has gone out. -/
def sentOut (s : EventLoop) (k : Nat) (q : Outq) : EventLoop where
  d := { s.d with conns := Function.update s.d.conns k { s.d.conns k with outq := q } }
  wire := Function.update s.wire k (s.wire k ++ (s.d.conns k).outq.rest)

section

variable (s : EventLoop) (q : Outq)

@[simp] theorem sentOut_self (k : Nat) :
    (s.sentOut k q).d.conns k = { s.d.conns k with outq := q } := Function.update_self _ _ _

@[simp] theorem sentOut_of_ne {j k : Nat} (hne : j ≠ k) :
    (s.sentOut k q).d.conns j = s.d.conns j := Function.update_of_ne hne _ _

@[simp] theorem sentOut_fd (j k : Nat) : ((s.sentOut k q).d.conns j).fd = (s.d.conns j).fd := by
  rcases eq_or_ne j k with rfl | hne
  · rw [sentOut_self]
  · rw [sentOut_of_ne s q hne]

end

/-- A flush whose sends take everything sends the queue out. -/
theorem flushHere_willing (s : EventLoop) (k : Nat) {results : List SendResult} (now : Nat)
    (hwilling : Willing results) :
    ∃ q, q.count = 0 ∧ s.flushHere k results now = s.sentOut k q := by
  have hlong := Nat.le_trans (s.d.conns k).outq.count_le hwilling.1
  obtain ⟨hempty, hok⟩ := outqFlushLoop_willing results (s.d.conns k).outq hwilling.2 hlong
  have hrest := outqFlushLoop_rest hempty
  rcases hloop : outqFlushLoop results (s.d.conns k).outq with ⟨bytes, q, ok⟩
  rw [hloop] at hempty hok hrest
  obtain rfl : ok = true := hok
  obtain rfl : bytes = _ := hrest
  refine ⟨q, hempty, ?_⟩
  simp only [flushHere, outqFlush, hloop, sentOut]

/-- The entry of a connection finds it. -/
theorem drainOne_pending {s : EventLoop} {k : Nat} (hk : k < rtdbdMaxClients)
    (hpending : s.Pending k) (hapart : s.FdsApart) {answer : DrainAnswer}
    (hready : answer.pollout = true) :
    s.drainOne ((s.d.conns k).fd, answer) = s.flushHere k answer.results answer.now := by
  have hfound : ((List.range rtdbdMaxClients).find? fun j =>
      decide ((s.d.conns j).fd = (s.d.conns k).fd ∧ 0 < (s.d.conns j).outq.count)) = some k := by
    cases hfind : (List.range rtdbdMaxClients).find? fun j =>
        decide ((s.d.conns j).fd = (s.d.conns k).fd ∧ 0 < (s.d.conns j).outq.count) with
    | none =>
        have hnone := List.find?_eq_none.mp hfind k (List.mem_range.mpr hk)
        exact absurd (decide_eq_true ⟨rfl, hpending.2⟩) hnone
    | some j =>
        have hj := List.mem_range.mp (List.mem_of_find?_eq_some hfind)
        have hmatch := List.find?_some hfind
        obtain ⟨hfd, hpos⟩ := of_decide_eq_true hmatch
        rw [hapart j hj k hk ⟨hfd ▸ hpending.1, hpos⟩ hpending hfd]
  unfold drainOne
  rw [if_pos hready]
  dsimp only
  rw [hfound]

/-- The queues of the places `ks` have gone out, and nothing else has changed. -/
structure WentOut (ks : List Nat) (s t : EventLoop) : Prop where
  empty : ∀ k ∈ ks, (t.d.conns k).outq.count = 0
  sent : ∀ k ∈ ks, t.wire k = s.wire k ++ (s.d.conns k).outq.rest
  other : ∀ k, k ∉ ks → t.d.conns k = s.d.conns k ∧ t.wire k = s.wire k
  fd : ∀ k, (t.d.conns k).fd = (s.d.conns k).fd
  stats : t.d.stats = s.d.stats

/-- One more queue, before the others. -/
theorem WentOut.cons {ks : List Nat} {s t : EventLoop} {k₀ : Nat} {q : Outq} (hnot : k₀ ∉ ks)
    (hempty : q.count = 0) (h : WentOut ks (s.sentOut k₀ q) t) : WentOut (k₀ :: ks) s t := by
  obtain ⟨hconn, hwire⟩ := h.other k₀ hnot
  have hne : ∀ k ∈ ks, k ≠ k₀ := by
    rintro k hk rfl
    exact hnot hk
  constructor
  · intro k hk
    rcases List.mem_cons.mp hk with rfl | hk
    · rw [hconn, sentOut_self]
      exact hempty
    · exact h.empty k hk
  · intro k hk
    rcases List.mem_cons.mp hk with rfl | hk
    · rw [hwire]
      exact Function.update_self _ _ _
    · rw [h.sent k hk, sentOut_of_ne s q (hne k hk)]
      exact congrArg (· ++ _) (Function.update_of_ne (hne k hk) _ _)
  · intro k hk
    obtain ⟨hne, hk⟩ := not_or.mp (mt List.mem_cons.mpr hk)
    obtain ⟨hconn, hwire⟩ := h.other k hk
    rw [hconn, hwire, sentOut_of_ne s q hne]
    exact ⟨rfl, Function.update_of_ne hne _ _⟩
  · exact fun k => (h.fd k).trans (sentOut_fd s q k k₀)
  · exact h.stats

/-- A place that has gone out is not pending, and the others are as they were. -/
theorem pending_sentOut {s : EventLoop} {q : Outq} {k₀ : Nat} (hempty : q.count = 0) {k : Nat} :
    (s.sentOut k₀ q).Pending k ↔ k ≠ k₀ ∧ s.Pending k := by
  unfold Pending
  rcases eq_or_ne k k₀ with rfl | hne
  · rw [sentOut_self, hempty]
    simp
  · rw [sentOut_of_ne s q hne]
    exact ⟨fun h => ⟨hne, h⟩, fun h => h.2⟩

theorem FdsApart.sentOut {s : EventLoop} {q : Outq} {k₀ : Nat} (h : s.FdsApart)
    (hempty : q.count = 0) : (s.sentOut k₀ q).FdsApart := by
  intro j hj k hk hpendingJ hpendingK hfd
  rw [sentOut_fd, sentOut_fd] at hfd
  exact h j hj k hk ((pending_sentOut hempty).mp hpendingJ).2
    ((pending_sentOut hempty).mp hpendingK).2 hfd

/-- A turn in which every peer reads. -/
theorem wentOut_foldl (ks : List Nat) (hks : ∀ k ∈ ks, k < rtdbdMaxClients) (hnodup : ks.Nodup)
    (s : EventLoop) (hpending : ∀ k ∈ ks, s.Pending k) (hapart : s.FdsApart)
    (answers : List DrainAnswer) (hlong : ks.length ≤ answers.length)
    (hready : ∀ a ∈ answers, a.pollout = true ∧ Willing a.results) :
    WentOut ks s (((ks.map fun k => (s.d.conns k).fd).zip answers).foldl drainOne s) := by
  induction ks generalizing s answers with
  | nil => exact ⟨fun k hk => absurd hk List.not_mem_nil, fun k hk => absurd hk List.not_mem_nil,
      fun _ _ => ⟨rfl, rfl⟩, fun _ => rfl, rfl⟩
  | cons k₀ ks ih =>
      cases answers with
      | nil => cases hlong
      | cons answer answers =>
          obtain ⟨hout, hwilling⟩ := hready answer List.mem_cons_self
          obtain ⟨hnot, hnodup⟩ := List.nodup_cons.mp hnodup
          obtain ⟨q, hempty, hflush⟩ := s.flushHere_willing k₀ answer.now hwilling
          have hothers := ih (fun k hk => hks k (List.mem_cons_of_mem _ hk)) hnodup (s.sentOut k₀ q)
            (fun k hk => (pending_sentOut hempty).mpr
              ⟨fun heq => hnot (heq ▸ hk), hpending k (List.mem_cons_of_mem _ hk)⟩)
            (hapart.sentOut hempty) answers (Nat.le_of_succ_le_succ hlong)
            fun a ha => hready a (List.mem_cons_of_mem _ ha)
          simp only [sentOut_fd] at hothers
          rw [List.map_cons, List.zip_cons_cons, List.foldl_cons,
            drainOne_pending (hks k₀ List.mem_cons_self) (hpending k₀ List.mem_cons_self) hapart hout,
            hflush]
          exact hothers.cons hnot hempty

theorem mem_drainPlaces {s : EventLoop} {k : Nat} :
    k ∈ s.drainPlaces ↔ k < rtdbdMaxClients ∧ s.Pending k := by
  rw [drainPlaces, List.mem_filter, List.mem_range, decide_eq_true_eq]

/-- With nothing to send, there is no poll. -/
theorem drainLoop_done {s : EventLoop} (hdone : s.drainFds = []) {polls : List DrainPoll}
    {deadline : Nat} : drainLoop polls deadline s = some s := by
  unfold drainLoop
  rw [if_pos hdone, ite_self]

/-- One poll is enough where every peer reads. -/
theorem drainLoop_willing {s : EventLoop} (hapart : s.FdsApart) {answers : List DrainAnswer}
    (hlong : rtdbdMaxClients ≤ answers.length)
    (hready : ∀ a ∈ answers, a.pollout = true ∧ Willing a.results) (polls : List DrainPoll)
    {deadline : Nat} (hdeadline : 0 < deadline) :
    ∃ t, drainLoop (.ready answers :: polls) deadline s = some t ∧ WentOut s.drainPlaces s t := by
  have hshort : s.drainPlaces.length ≤ answers.length := by
    refine Nat.le_trans (List.length_filter_le _ _) ?_
    rwa [List.length_range]
  have hout : WentOut s.drainPlaces s (s.drainTurn answers) :=
    wentOut_foldl s.drainPlaces (fun k hk => (mem_drainPlaces.mp hk).1)
      (List.nodup_range.filter _) s (fun k hk => (mem_drainPlaces.mp hk).2) hapart answers hshort
      hready
  have hdone : (s.drainTurn answers).drainFds = [] := by
    rw [drainFds, List.map_eq_nil_iff]
    refine List.eq_nil_iff_forall_not_mem.mpr fun k hk => ?_
    obtain ⟨hlt, hfd, hpos⟩ := mem_drainPlaces.mp hk
    rcases Decidable.em (k ∈ s.drainPlaces) with hmem | hnot
    · rw [hout.empty k hmem] at hpos
      exact Nat.lt_irrefl 0 hpos
    · refine hnot (mem_drainPlaces.mpr ⟨hlt, ?_⟩)
      unfold Pending
      rw [← (hout.other k hnot).1]
      exact ⟨hfd, hpos⟩
  rw [drainLoop, if_neg (Nat.pos_iff_ne_zero.mp hdeadline)]
  split
  next hnone =>
    have hplaces : s.drainPlaces = [] := List.map_eq_nil_iff.mp hnone
    rw [hplaces]
    exact ⟨s, rfl, fun k hk => absurd hk List.not_mem_nil, fun k hk => absurd hk List.not_mem_nil,
      fun _ _ => ⟨rfl, rfl⟩, fun _ => rfl, rfl⟩
  next => exact ⟨s.drainTurn answers, drainLoop_done hdone, hout⟩

/-- Where the queues are empty, there is nothing to discard. -/
theorem discardAll_empty (clock : Nat → Nat) (ks : List Nat) (s : EventLoop)
    (hempty : ∀ k ∈ ks, (s.d.conns k).outq.count = 0) :
    (ks.foldl (discardHere clock) s).wire = s.wire ∧
      (ks.foldl (discardHere clock) s).d.stats = s.d.stats := by
  induction ks generalizing s with
  | nil => exact ⟨rfl, rfl⟩
  | cons k₀ ks ih =>
      have hstats : (s.discardHere clock k₀).d.stats = s.d.stats := by
        simp only [discardHere, RtdbdConn.discardOutq, hempty k₀ List.mem_cons_self,
          Nat.lt_irrefl, if_false]
      obtain ⟨hwire, hall⟩ := ih (s.discardHere clock k₀) fun k hk => by
        rcases eq_or_ne k k₀ with rfl | hne
        · simp only [discardHere, Function.update_self]
          rfl
        · simp only [discardHere, Function.update_of_ne hne]
          exact hempty k (List.mem_cons_of_mem _ hk)
      exact ⟨hwire, hall.trans hstats⟩

end EventLoop

/-- Nothing is left to send of an empty queue. -/
theorem Outq.rest_empty {q : Outq} (hempty : q.count = 0) : q.rest = [] := by
  rw [Outq.rest, Outq.toList_of_empty hempty, List.flatMap_nil, List.drop_nil]

/-- **Peers that read are told everything.**  If at the first poll of the drain every
connection with something to send can be written to and takes it, whatever its queue was
and however far its oldest frame, the daemon polls no more, drops nothing, and every
connection has been sent the rest of its queue. -/
theorem shutdown_delivers {d : Rtdbd} {past : List (EventLoop × LoopEvent)} {s : EventLoop}
    (hstart : ∀ j, d.conns j = connInit) (hrun : EventLoop.Runs (.start d) past s)
    (hapart : s.FdsApart) {answers : List DrainAnswer} (hlong : rtdbdMaxClients ≤ answers.length)
    (hready : ∀ a ∈ answers, a.pollout = true ∧ Willing a.results) (polls : List DrainPoll)
    (clock : Nat → Nat) :
    ∃ t, s.shutdown (.ready answers :: polls) clock = some t ∧
      t.d.stats.notifyDrop = s.d.stats.notifyDrop ∧
      ∀ k, k < rtdbdMaxClients → t.wire k = s.wire k ++ (s.d.conns k).outq.rest := by
  have htidy := tidy hstart hrun
  have hsecond : 0 < rtdbdShutdownDelaySec * 1000 := by decide
  obtain ⟨drained, hdrained, hout⟩ :=
    EventLoop.drainLoop_willing hapart hlong hready polls hsecond
  have hidle : ∀ k, k < rtdbdMaxClients → k ∉ s.drainPlaces → (s.d.conns k).outq.count = 0 := by
    intro k hk hnot
    rcases Int.lt_or_le (s.d.conns k).fd 0 with hfree | hopen
    · rw [htidy.free k hfree]
      rfl
    · refine Nat.eq_zero_of_not_pos fun hpos => hnot ?_
      exact EventLoop.mem_drainPlaces.mpr ⟨hk, hopen, hpos⟩
  have hempty : ∀ k ∈ List.range rtdbdMaxClients, (drained.d.conns k).outq.count = 0 := by
    intro k hk
    rcases Decidable.em (k ∈ s.drainPlaces) with hmem | hnot
    · exact hout.empty k hmem
    · rw [(hout.other k hnot).1]
      exact hidle k (List.mem_range.mp hk) hnot
  obtain ⟨hwire, hstats⟩ := EventLoop.discardAll_empty clock _ drained hempty
  refine ⟨(List.range rtdbdMaxClients).foldl (EventLoop.discardHere clock) drained, ?_, ?_, ?_⟩
  · rw [EventLoop.shutdown, hdrained, Option.map_some]
  · rw [hstats, hout.stats]
  · intro k hk
    rw [hwire]
    rcases Decidable.em (k ∈ s.drainPlaces) with hmem | hnot
    · exact hout.sent k hmem
    · rw [(hout.other k hnot).2, Outq.rest_empty (hidle k hk hnot), List.append_nil]

/-- A peer that has taken one byte of its notification reads on when the daemon stops. -/
theorem shutdown_delivers_interruption :
    ∃ t, (interruption.foldl EventLoop.after (.start entered)).shutdown
        [.ready (List.replicate 32 ⟨true, List.replicate 64 (.took 44), 1⟩)] (fun _ => 1) = some t ∧
      t.d.stats.notifyDrop =
        (interruption.foldl EventLoop.after (.start entered)).d.stats.notifyDrop ∧
      ∀ k, k < rtdbdMaxClients →
        t.wire k = (interruption.foldl EventLoop.after (.start entered)).wire k ++
          ((interruption.foldl EventLoop.after (.start entered)).d.conns k).outq.rest := by
  have hstart : EventLoop.Runs (.start entered) [] (.start entered) := .start
  have hrun := hstart.follow interruption (by decide +kernel)
  refine shutdown_delivers (fun _ => rfl) hrun (by decide +kernel) (by decide) ?_ [] _
  intro a ha
  obtain rfl := List.eq_of_mem_replicate ha
  refine ⟨rfl, by decide, fun r hr => ⟨44, by decide, List.eq_of_mem_replicate hr⟩⟩

end InduRtdb.Daemon
