/-
  Daemon/Outgoing.lean --- the queue of notifications of one connection over its life:
  what reaches the socket, and in which counter the rest ends up.

  Source: `conn_init`, `conn_discard_outq`, `outq_push` and `outq_flush` of
  `rtdbd/src/rtdbd.c`.

  A discard resets the queue whatever has been sent of its oldest frame.  The daemon
  closes the connection next, so the frame stays cut; the queue by itself would begin
  the next frame behind the part already sent.
-/
import InduRtdb.Daemon.FrameIntegrity

set_option autoImplicit false

namespace InduRtdb.Daemon

open InduRtdb.Lib

/-! ## One connection and what happens to its queue -/

/-- The calls that act on the queue, and what `send` reports to them. -/
inductive OutqCall where
  | push (nt : RtdbdNotify)
  | flush (results : List SendResult)
  | discard

/-- A connection with the counters and the bytes handed to its socket; and for the
record, the notifications pushed and the frames a discard has cut, each with the
number of its bytes sent. -/
structure Outgoing where
  conn : RtdbdConn
  stats : RtdbdStats
  wire : List UInt8
  pushed : List RtdbdNotify
  cut : List (RtdbdNotify × Nat)

/-- The frame a discard of the queue would cut. -/
def Outq.cut (q : Outq) : List (RtdbdNotify × Nat) :=
  if q.sent = 0 then [] else [(q.buf q.head, q.sent)]

/-- The frame a flush cuts: it discards the queue when a send fails. -/
def flushCut (results : List SendResult) (q : Outq) : List (RtdbdNotify × Nat) :=
  if (outqFlushLoop results q).2.2 then [] else (outqFlushLoop results q).2.1.cut

namespace Outgoing

/-- A connection just accepted. -/
def start (fd : Int) (st : RtdbdStats) : Outgoing where
  conn := { connInit with fd := fd }
  stats := st
  wire := []
  pushed := []
  cut := []

/-- One call, at time `now`. -/
def after (o : Outgoing) (call : OutqCall × Nat) : Outgoing :=
  match call with
  | (.push nt, now) =>
      let pushed := outqPush o.conn.outq o.stats nt now
      { o with
        conn := { o.conn with outq := pushed.1 }
        stats := pushed.2
        pushed := o.pushed ++ [nt] }
  | (.flush results, now) =>
      let flushed := outqFlush results o.conn o.stats now
      { o with
        conn := flushed.2.1
        stats := flushed.2.2.1
        wire := o.wire ++ flushed.1
        cut := o.cut ++ flushCut results o.conn.outq }
  | (.discard, now) =>
      let discarded := o.conn.discardOutq o.stats now
      { o with
        conn := discarded.1
        stats := discarded.2
        cut := o.cut ++ o.conn.outq.cut }

/-- The calls one after the other. -/
def run (o : Outgoing) (calls : List (OutqCall × Nat)) : Outgoing := calls.foldl after o

end Outgoing

/-! ## What the queue promises -/

/-- A frame of which so many bytes have been sent is sent as a whole. -/
def WholeFrame (part : RtdbdNotify × Nat) : Bool := rtdbdNotifyFrameLen ≤ part.2

/-- The bytes sent of these frames, one after the other. -/
def bytesOf (parts : List (RtdbdNotify × Nat)) : List UInt8 :=
  parts.flatMap fun part => part.1.frame.take part.2

/-- The frames `parts` are what has left the queue through the socket: in the order of
their pushes, before all that is queued, with the beginning of the oldest queued frame
behind them; and every push is sent as a whole, queued, or counted as dropped since
the count was `drops`. -/
structure LeftInOrder (o : Outgoing) (drops : Nat) (parts : List (RtdbdNotify × Nat)) : Prop where
  tail : o.conn.outq.tail = (o.conn.outq.head + o.conn.outq.count) % rtdbdOutqCap
  sent : o.conn.outq.sent < rtdbdNotifyFrameLen
  order : (parts.map Prod.fst ++ o.conn.outq.toList).Sublist o.pushed
  bytes : o.wire = bytesOf parts ++
    (o.conn.outq.buf o.conn.outq.head).frame.take o.conn.outq.sent
  count : o.pushed.length + drops =
    parts.countP WholeFrame + o.conn.outq.count + o.stats.notifyDrop

/-- Every frame that has left is whole. -/
def FifoExact (o : Outgoing) (drops : Nat) : Prop :=
  ∃ parts, LeftInOrder o drops parts ∧ ∀ part ∈ parts, WholeFrame part

/-- Every frame that has left is whole, except those a discard has cut, and these in
the order of the discards. -/
def FifoAccounted (o : Outgoing) (drops : Nat) : Prop :=
  ∃ parts, LeftInOrder o drops parts ∧ parts.filter (fun part => !WholeFrame part) = o.cut

/-! ## One call -/

theorem bytesOf_append (parts parts' : List (RtdbdNotify × Nat)) :
    bytesOf (parts ++ parts') = bytesOf parts ++ bytesOf parts' := List.flatMap_append

/-- Whole frames are sent with all their bytes. -/
theorem bytesOf_whole (done : List RtdbdNotify) :
    bytesOf (done.map fun nt => (nt, rtdbdNotifyFrameLen)) = done.flatMap RtdbdNotify.frame := by
  rw [bytesOf, List.flatMap_map]
  refine List.flatMap_congr fun nt _ => ?_
  exact List.take_of_length_le (Nat.le_of_eq nt.length_frame)

/-- A push adds one notification to those queued and those dropped. -/
theorem count_outqPush (q : Outq) (st : RtdbdStats) (nt : RtdbdNotify) (now : Nat) :
    (outqPush q st nt now).1.count + (outqPush q st nt now).2.notifyDrop =
      q.count + st.notifyDrop + 1 := by
  unfold outqPush
  split
  next hfull =>
    have hpos := q.pos_of_full hfull
    dsimp only
    split
    next => exact (Nat.add_assoc _ _ _).symm
    next =>
      simp only [Outq.append, Outq.count_dropHead, RtdbdStats.noteError]
      omega
  next =>
    simp only [Outq.append]
    omega

/-- What is queued after a push was queued before or is the notification pushed. -/
theorem sublist_outqPush (q : Outq) (st : RtdbdStats) (nt : RtdbdNotify) (now : Nat) :
    (outqPush q st nt now).1.toList.Sublist (q.toList ++ [nt]) := by
  rw [toList_outqPush]
  split
  next => exact List.sublist_append_left _ _
  next => exact List.drop_sublist _ _

theorem LeftInOrder.push {o : Outgoing} {drops : Nat} {parts : List (RtdbdNotify × Nat)}
    (h : LeftInOrder o drops parts) (nt : RtdbdNotify) (now : Nat) :
    LeftInOrder (o.after (.push nt, now)) drops parts := by
  constructor
  · exact Outq.tail_eq _
  · exact Outq.sent_lt _
  · have hbehind := sublist_outqPush o.conn.outq o.stats nt now
    have hall := hbehind.append_left (parts.map Prod.fst)
    rw [← List.append_assoc] at hall
    exact hall.trans (h.order.append_right [nt])
  · have hbytes := h.bytes
    rw [← take_head_outqPush o.conn.outq o.stats nt now] at hbytes
    exact hbytes
  · have hcount := count_outqPush o.conn.outq o.stats nt now
    have hbefore := h.count
    simp only [Outgoing.after, List.length_append, List.length_singleton]
    omega

/-- What a discard leaves of a queue from which `parts` have gone: the frame it cuts is
the last that has gone. -/
theorem LeftInOrder.discard {o : Outgoing} {drops : Nat} {parts : List (RtdbdNotify × Nat)}
    (h : LeftInOrder o drops parts) (now : Nat) :
    LeftInOrder (o.after (.discard, now)) drops (parts ++ o.conn.outq.cut) := by
  constructor
  · exact Outq.tail_eq _
  · exact Outq.sent_lt _
  · have hcut : (o.conn.outq.cut.map Prod.fst).Sublist o.conn.outq.toList := by
      unfold Outq.cut
      split
      next => exact List.nil_sublist _
      next hsent =>
        have hne : 0 < o.conn.outq.count := by
          apply Nat.pos_of_ne_zero
          exact fun hzero => hsent (o.conn.outq.sent_zero hzero)
        rw [o.conn.outq.toList_eq_cons hne]
        exact List.singleton_sublist.mpr List.mem_cons_self
    have hall := (hcut.append_left (parts.map Prod.fst)).trans h.order
    rw [← List.map_append] at hall
    simp only [Outgoing.after, RtdbdConn.discardOutq, Outq.toList_discard, List.append_nil]
    exact hall
  · have hbytes : bytesOf o.conn.outq.cut =
        (o.conn.outq.buf o.conn.outq.head).frame.take o.conn.outq.sent := by
      unfold Outq.cut
      split
      next hzero => rw [hzero, List.take_zero]; rfl
      next => exact List.append_nil _
    rw [bytesOf_append, hbytes, ← h.bytes]
    exact (List.append_nil _).symm
  · have hcut : o.conn.outq.cut.countP WholeFrame = 0 := by
      unfold Outq.cut
      split
      next => rfl
      next =>
        have hsent := o.conn.outq.sent_lt
        simp [WholeFrame, hsent]
    have hdrop : (o.after (.discard, now)).stats.notifyDrop =
        o.stats.notifyDrop + o.conn.outq.count := by
      simp only [Outgoing.after, RtdbdConn.discardOutq]
      split
      next => rfl
      next => omega
    have hempty : (o.after (.discard, now)).conn.outq.count = 0 := rfl
    have hbefore := h.count
    have hpushed : (o.after (.discard, now)).pushed = o.pushed := rfl
    rw [List.countP_append, hcut, hdrop, hempty, hpushed]
    omega

/-- The connection behind a flush whose sends did not fail, or as it is when the failing
one makes it discard the queue. -/
def Outgoing.flushed (o : Outgoing) (results : List SendResult) : Outgoing :=
  { o with
    conn := { o.conn with outq := (outqFlushLoop results o.conn.outq).2.1 }
    wire := o.wire ++ (outqFlushLoop results o.conn.outq).1 }

theorem LeftInOrder.flushed {o : Outgoing} {drops : Nat} {parts : List (RtdbdNotify × Nat)}
    (h : LeftInOrder o drops parts) (results : List SendResult) :
    ∃ done : List RtdbdNotify, LeftInOrder (o.flushed results) drops
      (parts ++ done.map fun nt => (nt, rtdbdNotifyFrameLen)) := by
  obtain ⟨done, hlist, hbytes⟩ := outqFlushLoop_frames results o.conn.outq
  refine ⟨done, ?_, ?_, ?_, ?_, ?_⟩
  · exact Outq.tail_eq _
  · exact Outq.sent_lt _
  · have horder := h.order
    rw [hlist, ← List.append_assoc] at horder
    have hnames : (done.map fun nt => (nt, rtdbdNotifyFrameLen)).map Prod.fst = done := by
      rw [List.map_map]
      exact List.map_id done
    rw [List.map_append, hnames]
    exact horder
  · rw [bytesOf_append, bytesOf_whole, List.append_assoc]
    refine Eq.trans ?_ (congrArg (bytesOf parts ++ ·) hbytes)
    simp only [Outgoing.flushed]
    rw [h.bytes, List.append_assoc]
  · have hlength := congrArg List.length hlist
    rw [List.length_append, Outq.length_toList, Outq.length_toList] at hlength
    have hwhole : (done.map fun nt => (nt, rtdbdNotifyFrameLen)).countP WholeFrame =
        done.length := by
      rw [List.countP_map]
      exact List.countP_eq_length.mpr fun _ _ => rfl
    have hbefore := h.count
    simp only [Outgoing.flushed, List.countP_append, hwhole]
    omega

/-- A flush is its loop, and a discard behind it when a send failed. -/
theorem LeftInOrder.after_flush {o : Outgoing} {drops : Nat} {parts : List (RtdbdNotify × Nat)}
    (h : LeftInOrder o drops parts) (results : List SendResult) (now : Nat) :
    ∃ done : List RtdbdNotify, LeftInOrder (o.after (.flush results, now)) drops
      (parts ++ (done.map fun nt => (nt, rtdbdNotifyFrameLen)) ++
        flushCut results o.conn.outq) := by
  obtain ⟨done, hdone⟩ := h.flushed results
  refine ⟨done, ?_⟩
  rcases hloop : outqFlushLoop results o.conn.outq with ⟨bytes, q, _ | _⟩
  · have hgone := hdone.discard now
    simp only [Outgoing.flushed, Outgoing.after, hloop] at hgone
    simp only [Outgoing.after, outqFlush, flushCut, hloop]
    exact ⟨hgone.tail, hgone.sent, hgone.order, hgone.bytes, hgone.count⟩
  · simp only [Outgoing.flushed, hloop] at hdone
    simp only [Outgoing.after, outqFlush, flushCut, hloop, if_true, List.append_nil]
    exact hdone

/-! ## A whole life -/

/-- A frame that is cut is not whole. -/
theorem Outq.filter_cut (q : Outq) : q.cut.filter (fun part => !WholeFrame part) = q.cut := by
  refine List.filter_eq_self.mpr fun part hpart => ?_
  unfold Outq.cut at hpart
  split at hpart
  next => cases hpart
  next =>
    obtain rfl := List.mem_singleton.mp hpart
    have hsent := q.sent_lt
    simp [WholeFrame, hsent]

theorem filter_flushCut (results : List SendResult) (q : Outq) :
    (flushCut results q).filter (fun part => !WholeFrame part) = flushCut results q := by
  unfold flushCut
  split
  next => rfl
  next => exact Outq.filter_cut _

theorem FifoAccounted.start (fd : Int) (st : RtdbdStats) :
    FifoAccounted (Outgoing.start fd st) st.notifyDrop := by
  refine ⟨[], ?_, rfl⟩
  constructor
  · rfl
  · exact Nat.two_pow_pos 0 |>.trans_le (by decide)
  · exact List.nil_sublist _
  · rfl
  · simp [Outgoing.start, connInit, Outq.empty]

/-- Every call keeps the account. -/
theorem FifoAccounted.after {o : Outgoing} {drops : Nat} (h : FifoAccounted o drops)
    (call : OutqCall × Nat) : FifoAccounted (o.after call) drops := by
  obtain ⟨parts, hleft, hcut⟩ := h
  obtain ⟨call, now⟩ := call
  cases call with
  | push nt => exact ⟨parts, hleft.push nt now, hcut⟩
  | flush results =>
      obtain ⟨done, hdone⟩ := hleft.after_flush results now
      refine ⟨_, hdone, ?_⟩
      have hwhole : (done.map fun nt => (nt, rtdbdNotifyFrameLen)).filter
          (fun part => !WholeFrame part) = [] := by
        refine List.filter_eq_nil_iff.mpr fun part hpart => ?_
        obtain ⟨nt, -, rfl⟩ := List.mem_map.mp hpart
        simp [WholeFrame]
      rw [List.filter_append, List.filter_append, hcut, hwhole, filter_flushCut, List.append_nil]
      rfl
  | discard =>
      refine ⟨_, hleft.discard now, ?_⟩
      rw [List.filter_append, hcut, Outq.filter_cut]
      rfl

/-- **The queue is first in, first out, and every push is accounted for.**  Whatever
is called and whatever `send` reports, the frames on the wire are whole and in the order
of their pushes, except for those that a discard has cut. -/
theorem accounted_of_calls (fd : Int) (st : RtdbdStats) (calls : List (OutqCall × Nat)) :
    FifoAccounted ((Outgoing.start fd st).run calls) st.notifyDrop := by
  have hkept : ∀ (calls : List (OutqCall × Nat)) (o : Outgoing),
      FifoAccounted o st.notifyDrop → FifoAccounted (o.run calls) st.notifyDrop := by
    intro calls
    induction calls with
    | nil => exact fun _ h => h
    | cons call calls ih => exact fun o h => ih (o.after call) (h.after call)
  exact hkept calls _ (.start fd st)

/-- Counters of a daemon just started. -/
def noStats : RtdbdStats := ⟨0, 0, 0, 0, 0, 0, 0, 0, 0⟩

/-- Ten bytes of a notification go out before the queue is discarded. -/
theorem not_fifoExact :
    ¬ ∀ (fd : Int) (st : RtdbdStats) (calls : List (OutqCall × Nat)),
      FifoExact ((Outgoing.start fd st).run calls) st.notifyDrop := by
  intro hexact
  obtain ⟨parts, hleft, hwhole⟩ :=
    hexact 5 noStats [(.push default, 0), (.flush [.took 10], 0), (.discard, 0)]
  have hcount : parts.countP WholeFrame = 0 := by
    have hcount := hleft.count
    have hpushed : ((Outgoing.start 5 noStats).run
      [(.push default, 0), (.flush [.took 10], 0), (.discard, 0)]).pushed.length = 1 := rfl
    have hdropped : ((Outgoing.start 5 noStats).run
      [(.push default, 0), (.flush [.took 10], 0), (.discard, 0)]).stats.notifyDrop = 1 := rfl
    have hbefore : noStats.notifyDrop = 0 := rfl
    omega
  have hnone : parts = [] := by
    apply List.eq_nil_iff_forall_not_mem.mpr
    exact fun part hpart => List.countP_eq_zero.mp hcount part hpart (hwhole part hpart)
  have hbytes := congrArg List.length hleft.bytes
  rw [hnone] at hbytes
  revert hbytes
  decide +kernel

end InduRtdb.Daemon
