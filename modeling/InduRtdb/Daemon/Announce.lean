/-
  Daemon/Announce.lean --- which writes the subscribers hear of.

  Source: `op_write`, `notify_broadcast` and `outq_push` of `rtdbd/src/rtdbd.c`.

  `op_write` stores the value, records it and counts it; then it answers, and
  broadcasts the change behind its answer.  A writer that cannot be answered takes
  the broadcast with it.
-/
import InduRtdb.Daemon.Loop

set_option autoImplicit false

namespace InduRtdb.Daemon

open InduRtdb.Core InduRtdb.Api InduRtdb.Lib

/-! ## Offers -/

/-- A connection is open, is subscribed to the point, and `rbe_decide` reports the
value to it. -/
def Reports (pointId : Nat) (value : Float) (m : IndurtdbMeta) (c : RtdbdConn) : Prop :=
  0 ≤ c.fd ∧ c.hasSub pointId = true ∧ (rbeDecide c.rbe pointId value m).1 = true

instance (pointId : Nat) (value : Float) (m : IndurtdbMeta) (c : RtdbdConn) :
    Decidable (Reports pointId value m c) := inferInstanceAs (Decidable (_ ∧ _ ∧ _))

/-- The value a notification carries. -/
def RtdbdNotify.value (nt : RtdbdNotify) : Float := indurtdbValueToDouble nt.type nt.valueBits

/-- A connection has been offered a notification: it went through `rbe_decide`, and
when that reports it, it stands in the queue, unless the queue is full and its oldest
frame is on its way. -/
structure Offered (nt : RtdbdNotify) (m : IndurtdbMeta) (c c' : RtdbdConn) : Prop where
  rbe : c'.rbe = (rbeDecide c.rbe nt.pointId nt.value m).2
  queued : Reports nt.pointId nt.value m c → c'.outq.toList =
    if c.outq.count = rtdbdOutqCap ∧ 0 < c.outq.sent then c.outq.toList
    else lastOf rtdbdOutqCap (c.outq.toList ++ [nt])

/-- Every subscriber has been offered a notification, and what did not find room is
counted. -/
structure Announced (nt : RtdbdNotify) (m : IndurtdbMeta) (d d' : Rtdbd) : Prop where
  offered : ∀ j, j < rtdbdMaxClients → 0 ≤ (d.conns j).fd →
    (d.conns j).hasSub nt.pointId = true → Offered nt m (d.conns j) (d'.conns j)
  dropped : d'.stats.notifyDrop = d.stats.notifyDrop +
    (List.range rtdbdMaxClients).countP fun j =>
      decide (Reports nt.pointId nt.value m (d.conns j) ∧
        (d.conns j).outq.count = rtdbdOutqCap)

variable {nt : RtdbdNotify} {m : IndurtdbMeta} {now : Nat} {c : RtdbdConn} {st : RtdbdStats}

theorem offer_of_not_reports (h : ¬ Reports nt.pointId nt.value m c) :
    offer nt m now c st = (c, st) := by
  unfold offer
  split
  next => rfl
  next hopen =>
    split
    next => rfl
    next hsub =>
      have hdecide : (rbeDecide c.rbe nt.pointId nt.value m).1 = false :=
        Bool.eq_false_iff.mpr fun htrue =>
          h ⟨Int.not_lt.mp hopen, of_not_bnot hsub, htrue⟩
      have hrbe := rbeDecide_silent hdecide
      rw [RtdbdNotify.value] at hdecide hrbe
      split
      next rbe heq =>
        rw [heq] at hrbe
        obtain rfl : rbe = c.rbe := hrbe
        rfl
      next rbe heq =>
        rw [heq] at hdecide
        cases hdecide

theorem offer_of_reports (h : Reports nt.pointId nt.value m c) :
    offer nt m now c st =
      ({ c with
          rbe := (rbeDecide c.rbe nt.pointId nt.value m).2
          outq := (outqPush c.outq st nt now).1 },
        (outqPush c.outq st nt now).2) := by
  obtain ⟨hopen, hsub, hdecide⟩ := h
  rw [RtdbdNotify.value] at hdecide ⊢
  unfold offer
  rw [if_neg (Int.not_lt.mpr hopen), hsub]
  simp only [Bool.not_true, Bool.false_eq_true, if_false]
  split
  next rbe heq =>
    rw [heq] at hdecide
    cases hdecide
  next rbe heq => rw [heq]

/-- An offer is an offer. -/
theorem offer_offered (hsub : c.hasSub nt.pointId = true) (hopen : 0 ≤ c.fd) :
    Offered nt m c (offer nt m now c st).1 := by
  rcases Decidable.em (Reports nt.pointId nt.value m c) with hreports | hnot
  · rw [offer_of_reports hreports]
    exact ⟨rfl, fun _ => toList_outqPush c.outq st nt now⟩
  · rw [offer_of_not_reports hnot]
    have hdecide : (rbeDecide c.rbe nt.pointId nt.value m).1 = false :=
      Bool.eq_false_iff.mpr fun htrue => hnot ⟨hopen, hsub, htrue⟩
    exact ⟨(rbeDecide_silent hdecide).symm, fun h => absurd h hnot⟩

theorem offer_notifyDrop : (offer nt m now c st).2.notifyDrop = st.notifyDrop +
    if Reports nt.pointId nt.value m c ∧ c.outq.count = rtdbdOutqCap then 1 else 0 := by
  rcases Decidable.em (Reports nt.pointId nt.value m c) with hreports | hnot
  · rw [offer_of_reports hreports, notifyDrop_outqPush]
    simp only [hreports, true_and]
  · rw [offer_of_not_reports hnot, if_neg fun h => hnot h.1]
    rfl

/-- The loop counts every queue it found full. -/
theorem offerLoop_notifyDrop (n : Nat) :
    ∀ i conns st, (offerLoop nt m now n i conns st).2.notifyDrop = st.notifyDrop +
      (List.range' i n).countP fun j =>
        decide (Reports nt.pointId nt.value m (conns j) ∧
          (conns j).outq.count = rtdbdOutqCap) := by
  induction n with
  | zero => intro i conns st; rfl
  | succ n ih =>
      intro i conns st
      rw [offerLoop, ih, offer_notifyDrop, List.range'_succ, List.countP_cons]
      have hrest : (List.range' (i + 1) n).countP (fun j =>
            decide (Reports nt.pointId nt.value m
                (Function.update conns i (offer nt m now (conns i) st).1 j) ∧
              (Function.update conns i (offer nt m now (conns i) st).1 j).outq.count
                = rtdbdOutqCap)) =
          (List.range' (i + 1) n).countP fun j =>
            decide (Reports nt.pointId nt.value m (conns j) ∧
              (conns j).outq.count = rtdbdOutqCap) := by
        refine List.countP_congr fun j hj => ?_
        have hlater := (List.mem_range'_1.mp hj).1
        rw [Function.update_of_ne (by omega)]
      rw [hrest]
      simp only [decide_eq_true_eq]
      omega

/-- A broadcast is an announcement. -/
theorem notifyBroadcast_announced (d : Rtdbd) (w : RtdbdWriteReq) (m : IndurtdbMeta) (now : Nat) :
    Announced (notifyOf d.h w) m d (notifyBroadcast d w m now) := by
  constructor
  · intro j hj hopen hsub
    have hconn : (notifyBroadcast d w m now).conns j = _ :=
      offerLoop_conns (notifyOf d.h w) m now d.stats rtdbdMaxClients 0 d.conns d.stats j
    rw [hconn, if_pos ⟨Nat.zero_le j, by omega⟩]
    exact offer_offered hsub hopen
  · rw [List.range_eq_range']
    exact offerLoop_notifyDrop rtdbdMaxClients 0 d.conns d.stats

/-- Where nothing is done, a notification has been announced if nobody was to be
told. -/
theorem announced_unchanged_iff (nt : RtdbdNotify) (m : IndurtdbMeta) {d d' : Rtdbd} (hconns : d'.conns = d.conns)
    (hdrop : d'.stats.notifyDrop = d.stats.notifyDrop) :
    Announced nt m d d' ↔
      ∀ j, j < rtdbdMaxClients → ¬ Reports nt.pointId nt.value m (d.conns j) := by
  constructor
  · intro hannounced j hj hreports
    have hcount : ((List.range rtdbdMaxClients).countP fun j =>
        decide (Reports nt.pointId nt.value m (d.conns j) ∧
          (d.conns j).outq.count = rtdbdOutqCap)) = 0 := by
      have hdropped := hannounced.dropped
      omega
    have hroom : (d.conns j).outq.count ≠ rtdbdOutqCap := by
      intro hfull
      have hnone := List.countP_eq_zero.mp hcount j (List.mem_range.mpr hj)
      exact hnone (decide_eq_true ⟨hreports, hfull⟩)
    have hqueued := (hannounced.offered j hj hreports.1 hreports.2.1).queued hreports
    have hle := (d.conns j).outq.count_le
    rw [hconns, if_neg fun h => hroom h.1, lastOf_of_length_le] at hqueued
    · have hlen := congrArg List.length hqueued
      rw [List.length_append, List.length_singleton] at hlen
      omega
    · rw [List.length_append, List.length_singleton, Outq.length_toList]
      omega
  · intro hnone
    constructor
    · intro j hj hopen hsub
      have hnot := hnone j hj
      have hdecide : (rbeDecide (d.conns j).rbe nt.pointId nt.value m).1 = false :=
        Bool.eq_false_iff.mpr fun htrue => hnot ⟨hopen, hsub, htrue⟩
      rw [hconns]
      exact ⟨(rbeDecide_silent hdecide).symm, fun h => absurd h hnot⟩
    · have hcount : ((List.range rtdbdMaxClients).countP fun j =>
          decide (Reports nt.pointId nt.value m (d.conns j) ∧
            (d.conns j).outq.count = rtdbdOutqCap)) = 0 := by
        refine List.countP_eq_zero.mpr fun j hj h => ?_
        exact hnone j (List.mem_range.mp hj) (of_decide_eq_true h).1
      rw [hcount, hdrop, Nat.add_zero]

/-! ## Writes that are stored -/

/-- The write a request asks for. -/
def writeOf (input : List UInt8) : RtdbdWriteReq :=
  RtdbdWriteReq.ofBytes ((input.drop sizeofHdr).take (headerOf input).payloadLen)

/-- The metadata a write is reported against. -/
def metaOf (h : IndurtdbH) (pointId : Nat) : IndurtdbMeta :=
  (indurtdbHGetMeta h pointId).toOption.getD IndurtdbMeta.zero

theorem doWrite_meta {h h' : IndurtdbH} {w : RtdbdWriteReq} {wall : Nat} {m : IndurtdbMeta}
    (hwrite : doWrite h w wall = (.stored m, h')) : m = metaOf h w.pointId := by
  unfold doWrite at hwrite
  split at hwrite
  · cases hwrite
  · dsimp only at hwrite
    split at hwrite
    · cases hwrite
      rfl
    · cases hwrite

/-- A decision to store a write: it stays with the queues as they are, and broadcasts
behind an empty answer. -/
structure Reply.Stores (reply : Reply) (cx : RtdbdCtx) : Prop where
  stays : reply.refused = false
  short : (frameBytes reply.status reply.payload).length = sizeofHdr
  conns : reply.d.conns = cx.d.conns
  dropped : reply.d.stats.notifyDrop = cx.d.stats.notifyDrop
  announces : reply.announce = fun d =>
    notifyBroadcast d cx.writeReq (metaOf cx.d.h cx.writeReq.pointId) cx.env.now

/-- Only storing a write counts one. -/
theorem Decided.stores {cx : RtdbdCtx} {reply : Reply} (decided : Decided cx reply)
    (hwrites : (reply.send cx).2.d.stats.nWrites ≠ cx.d.stats.nWrites) : reply.Stores cx := by
  have hquiet : reply.announce = id → reply.d.stats.nWrites = cx.d.stats.nWrites →
      reply.Stores cx := by
    intro hid hsame
    rw [reply.send_quiet hid] at hwrites
    exact absurd hsame hwrites
  cases decided with
  | wrote arrived size opcode permitted m h stores =>
      obtain rfl := doWrite_meta stores
      exact ⟨rfl, rfl, rfl, rfl, rfl⟩
  | refused st writes => exact hquiet rfl writes
  | answered _ _ st writes => exact hquiet rfl writes
  | writeFailed _ _ _ h st writes => exact hquiet rfl writes
  | changed =>
      refine hquiet rfl ?_
      rw [stats_logged]
      rfl
  | _ => exact hquiet rfl rfl

/-- A request after which more writes are counted has stored a write; it is broadcast if
the answer can be sent. -/
theorem handleRequest_wrote {d : Rtdbd} {slot : Nat} {sock : Socket} {env : Env}
    (hwrites : (handleRequest d slot sock env).d.stats.nWrites ≠ d.stats.nWrites) :
    ∃ stored : Rtdbd, stored.conns = d.conns ∧ stored.stats.notifyDrop = d.stats.notifyDrop ∧
      (handleRequest d slot sock env).d =
        if sock.Takes sizeofHdr then
          notifyBroadcast stored (writeOf sock.input) (metaOf d.h (writeOf sock.input).pointId)
            env.now
        else stored := by
  rcases Decidable.em (HeaderArrives sock.input) with harrives | hnot
  · obtain ⟨reply, decided, hhandled⟩ := @handleRequest_of_header d slot sock env harrives
    rw [hhandled] at hwrites ⊢
    have hstores := decided.stores hwrites
    have hkeep := reply.send_keep_iff hstores.stays (.ofRequest d slot sock env)
    obtain ⟨k, room, -, -, hd⟩ := reply.send_eq (.ofRequest d slot sock env)
    rw [hstores.short] at hkeep
    refine ⟨reply.d, hstores.conns, hstores.dropped, ?_⟩
    rw [hd, hstores.announces]
    simp only [hkeep]
    rfl
  · obtain ⟨st, input, hsame, hhandled⟩ := @handleRequest_of_not_header d slot sock env hnot
    rw [hhandled] at hwrites
    exact absurd hsame hwrites

/-! ## Runs of the loop -/

namespace EventLoop

/-- The event is a request that stores its value: one more write is counted. -/
def Stores (s : EventLoop) : LoopEvent → Prop
  | .request slot input room env =>
      (s.handled slot input room env).d.stats.nWrites = s.d.stats.nWrites + 1
  | _ => False

/-- What the request asks to write has been announced when it has been handled. -/
def Heard (s : EventLoop) : LoopEvent → Prop
  | .request slot input room env =>
      Announced (notifyOf (s.handled slot input room env).d.h (writeOf input))
        (metaOf s.d.h (writeOf input).pointId) s.d (s.handled slot input room env).d
  | _ => True

/-- The value of a write is reported to nobody. -/
def Untold (s : EventLoop) (w : RtdbdWriteReq) : Prop :=
  ∀ j, j < rtdbdMaxClients → ¬ Reports w.pointId (indurtdbValueToDouble w.type w.valueBits)
    (metaOf s.d.h w.pointId) (s.d.conns j)

instance (s : EventLoop) (w : RtdbdWriteReq) : Decidable (s.Untold w) :=
  inferInstanceAs (Decidable (∀ j, j < rtdbdMaxClients → ¬ _))

/-- The request can be answered, or there is nobody to tell. -/
def Answerable (s : EventLoop) : LoopEvent → Prop
  | .request slot input room _ =>
      Socket.Takes ⟨input, room, s.wire slot⟩ sizeofHdr ∨ s.Untold (writeOf input)
  | _ => True

/-- A write that is stored is announced exactly when its writer can be answered, or
there is nobody to tell. -/
theorem heard_iff {s : EventLoop} {e : LoopEvent} (hstores : s.Stores e) :
    s.Heard e ↔ s.Answerable e := by
  cases e with
  | accept => cases hstores
  | flush => cases hstores
  | request slot input room env =>
      have hwrites : (s.handled slot input room env).d.stats.nWrites ≠ s.d.stats.nWrites := by
        rw [show (s.handled slot input room env).d.stats.nWrites = _ from hstores]
        exact Nat.succ_ne_self _
      obtain ⟨stored, hconns, hdrop, hd⟩ := handleRequest_wrote hwrites
      dsimp only at hd
      rw [Heard, Answerable, handled, hd]
      split
      next htakes =>
        have hannounced := notifyBroadcast_announced stored (writeOf input)
          (metaOf s.d.h (writeOf input).pointId) env.now
        refine iff_of_true ⟨fun j hj => ?_, ?_⟩ (.inl htakes)
        · rw [← hconns]
          exact hannounced.offered j hj
        · rw [← hconns, ← hdrop]
          exact hannounced.dropped
      next hnot =>
        have huntold := announced_unchanged_iff (notifyOf stored.h (writeOf input))
          (metaOf s.d.h (writeOf input).pointId) hconns hdrop
        exact huntold.trans ⟨.inr, fun h => h.resolve_left hnot⟩

end EventLoop

/-- **No stored write goes unannounced.**  Along any run, a write that is stored is
announced to its subscribers exactly when its writer can be answered, or there is
nobody to tell. -/
theorem heard_iff_answerable {d : Rtdbd} {past : List (EventLoop × LoopEvent)} {s : EventLoop}
    (hrun : EventLoop.Runs (.start d) past s) :
    ∀ p ∈ past, p.1.Stores p.2 → (p.1.Heard p.2 ↔ p.1.Answerable p.2) := by
  induction hrun with
  | start => exact fun p hp => absurd hp List.not_mem_nil
  | next hrun e hcan ih =>
      intro p hp hstores
      rcases List.mem_cons.mp hp with rfl | hp
      · exact EventLoop.heard_iff hstores
      · exact ih p hp hstores

/-- One client connects and subscribes, another one connects. -/
def subscribed : List LoopEvent :=
  [.accept 0 5, .accept 1 6, .request 0 subscribeZero none operator]

/-- The writer is there to be answered. -/
theorem heard_iff_answerable_answered :
    (subscribed.foldl EventLoop.after (.start entered)).Heard
      (.request 1 writeZero none operator) := by
  have hstart : EventLoop.Runs (.start entered) [] (.start entered) := .start
  have hrun := (hstart.follow subscribed (by decide +kernel)).next
    (.request 1 writeZero none operator) (by decide +kernel)
  refine (heard_iff_answerable hrun _ List.mem_cons_self ?_).mpr (.inl ?_)
  · show _ = _
    decide +kernel
  · exact fun r hr => nomatch hr

/-- The writer has gone, and the subscriber does not hear of its write. -/
theorem not_heard :
    ¬ ∀ (d : Rtdbd) (past : List (EventLoop × LoopEvent)) (s : EventLoop),
      (∀ slot, (d.conns slot).fd < 0) → EventLoop.Runs (.start d) past s →
        ∀ p ∈ past, p.1.Stores p.2 → p.1.Heard p.2 := by
  intro hheard
  have hstart : EventLoop.Runs (.start entered) [] (.start entered) := .start
  have hrun := (hstart.follow subscribed (by decide +kernel)).next
    (.request 1 writeZero (some 0) operator) (by decide +kernel)
  have hstores : (subscribed.foldl EventLoop.after (.start entered)).Stores
      (.request 1 writeZero (some 0) operator) := by
    show _ = _
    decide +kernel
  have hlast := hheard _ _ _ entered_closed hrun _ List.mem_cons_self hstores
  rcases (EventLoop.heard_iff hstores).mp hlast with htakes | huntold
  · exact absurd (htakes 0 rfl) (by decide)
  · revert huntold
    decide +kernel

end InduRtdb.Daemon
