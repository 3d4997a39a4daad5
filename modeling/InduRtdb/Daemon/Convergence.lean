/-
  Daemon/Convergence.lean --- what a subscriber has seen when its queue has drained.

  Source: `conn_add_sub`, `outq_push`, `outq_flush` and the loop body of
  `notify_broadcast` of `rtdbd/src/rtdbd.c`, and `rtdbd/src/rbe.c`.

  `rbe_decide` takes a value for reported when it decides to report it; the frame may
  still be dropped by a full queue.  Seen from one connection, what is compared with
  is the last frame of the point, delivered or queued, as long as the frames that are
  dropped have a later one behind them.
-/
import InduRtdb.Daemon.Announce
import InduRtdb.Daemon.Baseline

set_option autoImplicit false

namespace InduRtdb.Daemon

open InduRtdb.Core InduRtdb.Lib

/-! ## The last frame of a point -/

/-- The last notification of a point. -/
def lastFor (pointId : Nat) (nts : List RtdbdNotify) : Option RtdbdNotify :=
  (nts.filter fun nt => nt.pointId = pointId).getLast?

theorem lastFor_push_self (nts : List RtdbdNotify) (nt : RtdbdNotify) :
    lastFor nt.pointId (nts ++ [nt]) = some nt := by
  simp [lastFor, List.filter_append]

theorem lastFor_push_of_ne {pointId : Nat} (nts : List RtdbdNotify) {nt : RtdbdNotify}
    (hne : nt.pointId ≠ pointId) : lastFor pointId (nts ++ [nt]) = lastFor pointId nts := by
  simp [lastFor, List.filter_append, hne]

/-- A frame with a later one of its point behind it is not the last of any point. -/
theorem lastFor_drop {oldest : RtdbdNotify} {rest : List RtdbdNotify}
    (hlater : ∃ later ∈ rest, later.pointId = oldest.pointId) (pointId : Nat)
    (before : List RtdbdNotify) :
    lastFor pointId (before ++ oldest :: rest) = lastFor pointId (before ++ rest) := by
  rcases Decidable.em (oldest.pointId = pointId) with rfl | hne
  · obtain ⟨later, hmem, heq⟩ := hlater
    have hne : rest.filter (fun nt => decide (nt.pointId = oldest.pointId)) ≠ [] :=
      List.ne_nil_of_mem (List.mem_filter.mpr ⟨hmem, decide_eq_true heq⟩)
    simp only [lastFor, List.filter_append, List.filter_cons, decide_true, if_true]
    rw [List.getLast?_append_of_ne_nil _ hne, List.getLast?_append_of_ne_nil _ (List.cons_ne_nil _ _),
      ← List.singleton_append, List.getLast?_append_of_ne_nil _ hne]
  · simp [lastFor, List.filter_append, hne]

/-! ## What a flush delivers -/

/-- The notifications whose last byte a flush sends. -/
def flushedBy (results : List SendResult) (q : Outq) : List RtdbdNotify :=
  q.toList.take (q.count - (outqFlushLoop results q).2.1.count)

/-- What is delivered and what is still queued make up the queue. -/
theorem flushedBy_append (results : List SendResult) (q : Outq) :
    flushedBy results q ++ (outqFlushLoop results q).2.1.toList = q.toList := by
  obtain ⟨done, hlist, -⟩ := outqFlushLoop_frames results q
  have hcount := congrArg List.length hlist
  rw [List.length_append, Outq.length_toList, Outq.length_toList] at hcount
  have hdone : q.count - (outqFlushLoop results q).2.1.count = done.length := by omega
  rw [flushedBy, hdone]
  conv => rhs; rw [hlist]
  rw [hlist, List.take_left']
  rfl

/-! ## One connection -/

/-- What happens to an open connection: a subscription, its turn in the broadcast of a
successful write, a flush. -/
inductive LinkEvent where
  | subscribe (pointId : Nat)
  | write (nt : RtdbdNotify) (st : RtdbdStats) (now : Nat)
  | flush (results : List SendResult) (st : RtdbdStats) (now : Nat)

namespace Link

/-- What the event makes of the connection, with the metadata of each point. -/
def after (metas : Nat → IndurtdbMeta) (c : RtdbdConn) : LinkEvent → RtdbdConn
  | .subscribe pointId => (c.addSub pointId).2
  | .write nt st now => (offer nt (metas nt.pointId) now c st).1
  | .flush results st now => (outqFlush results c st now).2.1

/-- The connection stays open. -/
def Enabled (c : RtdbdConn) : LinkEvent → Prop
  | .flush results st now => (outqFlush results c st now).2.2.2 = true
  | _ => True

instance (c : RtdbdConn) : ∀ e, Decidable (Enabled c e)
  | .flush results st now => inferInstanceAs (Decidable ((outqFlush results c st now).2.2.2 = true))
  | .subscribe _ => .isTrue trivial
  | .write _ _ _ => .isTrue trivial

/-- A value that is reported to a connection with a full queue finds the oldest frame
not yet on its way, and with a later one of its point behind it. -/
def Spares (metas : Nat → IndurtdbMeta) (c : RtdbdConn) : LinkEvent → Prop
  | .write nt _ _ =>
      Reports nt.pointId nt.value (metas nt.pointId) c → c.outq.count = rtdbdOutqCap →
        c.outq.sent = 0 ∧ ∃ later ∈ c.outq.toList.tail ++ [nt],
          later.pointId = (c.outq.buf c.outq.head).pointId
  | _ => True

instance (metas : Nat → IndurtdbMeta) (c : RtdbdConn) : ∀ e, Decidable (Spares metas c e)
  | .write nt _ _ => inferInstanceAs (Decidable
      (Reports nt.pointId nt.value (metas nt.pointId) c → c.outq.count = rtdbdOutqCap →
        c.outq.sent = 0 ∧ ∃ later ∈ c.outq.toList.tail ++ [nt],
          later.pointId = (c.outq.buf c.outq.head).pointId))
  | .subscribe _ => .isTrue trivial
  | .flush _ _ _ => .isTrue trivial

end Link

/-- In a broadcast, every connection has its turn. -/
theorem notifyBroadcast_turn (d : Rtdbd) (w : RtdbdWriteReq) (metas : Nat → IndurtdbMeta)
    (now : Nat) {j : Nat} (hj : j < rtdbdMaxClients) :
    (notifyBroadcast d w (metas w.pointId) now).conns j =
      Link.after metas (d.conns j) (.write (notifyOf d.h w) d.stats now) := by
  have hconn : (notifyBroadcast d w (metas w.pointId) now).conns j = _ :=
    offerLoop_conns (notifyOf d.h w) (metas w.pointId) now d.stats rtdbdMaxClients 0 d.conns
      d.stats j
  rw [hconn, if_pos ⟨Nat.zero_le j, by omega⟩]
  rfl

/-- A flush by the loop is a flush of its connection. -/
theorem after_flush_turn (s : EventLoop) (slot : Nat) (results : List SendResult) (now : Nat)
    (metas : Nat → IndurtdbMeta)
    (hopen : Link.Enabled (s.d.conns slot) (.flush results s.d.stats now)) :
    (s.after (.flush slot results now)).d.conns slot =
      Link.after metas (s.d.conns slot) (.flush results s.d.stats now) := by
  have hopen : (outqFlush results (s.d.conns slot) s.d.stats now).2.2.2 = true := hopen
  simp [EventLoop.after, hopen, Link.after]

/-- What has been delivered on a connection, oldest first. -/
def delivered : List (RtdbdConn × LinkEvent) → List RtdbdNotify
  | [] => []
  | (c, e) :: past =>
      match e with
      | .flush results _ _ => delivered past ++ flushedBy results c.outq
      | .subscribe _ => delivered past
      | .write _ _ _ => delivered past

/-- The value last written to a point while the connection was subscribed to it. -/
def lastWritten : List (RtdbdConn × LinkEvent) → Nat → Option Float
  | [], _ => none
  | (c, e) :: past, pointId =>
      match e with
      | .write nt _ _ =>
          if nt.pointId = pointId ∧ c.hasSub pointId = true then some nt.value
          else lastWritten past pointId
      | .subscribe _ => lastWritten past pointId
      | .flush _ _ _ => lastWritten past pointId

/-- A value agrees with the one last written: it is that one, or with supervision one
that `rbe_decide` would not report it against. -/
def Agrees (m : IndurtdbMeta) (last written : Float) : Prop :=
  if IndurtdbMeta.Supervised m then rbeReports m last written = false else last = written

instance (m : IndurtdbMeta) (last written : Float) : Decidable (Agrees m last written) :=
  inferInstanceAs (Decidable (if IndurtdbMeta.Supervised m then rbeReports m last written = false
    else last = written))

/-- With accepted metadata, a value is not reported against itself. -/
theorem rbeReports_self {m : IndurtdbMeta} (hvalid : indurtdbValidatePointMeta m = none)
    (hsup : IndurtdbMeta.Supervised m) (v : Float) : rbeReports m v v = false := by
  have hdeadband : NonNegative (doubleOfFloat (Float32.ofBits m.deadband)) := by
    refine nonNegative_doubleOfFloat (Decidable.byContradiction fun hneg => ?_)
    unfold indurtdbValidatePointMeta at hvalid
    split at hvalid
    · cases hvalid
    · split at hvalid
      · cases hvalid
      · cases hvalid
  have hexceeded : ∀ absMode eurMin eurMax, indurtdbDeadbandExceeded absMode
      (doubleOfFloat (Float32.ofBits m.deadband)) eurMin eurMax v v = false :=
    fun absMode eurMin eurMax => deadbandExceeded_self absMode hdeadband eurMin eurMax v
  unfold rbeReports
  simp only [hexceeded, bne_self_eq_false, Bool.and_false, Bool.or_false]
  split
  next hoff =>
    simp only [Bool.and_eq_true, Bool.not_eq_true'] at hoff
    rcases hsup with hon | hon
    · cases hoff.1.symm.trans hon
    · cases hoff.2.symm.trans hon
  next => rfl

theorem agrees_self {m : IndurtdbMeta} (hvalid : indurtdbValidatePointMeta m = none) (v : Float) :
    Agrees m v v := by
  unfold Agrees
  split
  next hsup => exact rbeReports_self hvalid hsup v
  next => rfl

theorem agrees_of_silent {m : IndurtdbMeta} {last written : Float}
    (h : rbeReports m last written = false) : Agrees m last written := by
  unfold Agrees
  rw [if_pos (supervised_of_silent h)]
  exact h

/-! ## What is kept -/

/-- The frames of a connection, delivered and queued, tell what is compared with and
agree with what was written. -/
structure Tracks (metas : Nat → IndurtdbMeta) (past : List (RtdbdConn × LinkEvent))
    (c : RtdbdConn) : Prop where
  isOpen : 0 ≤ c.fd
  packed : c.rbe.Packed
  baseline : ∀ pointId v, c.rbe.baseline pointId = some v →
    ∃ nt, lastFor pointId (delivered past ++ c.outq.toList) = some nt ∧ nt.value = v
  written : ∀ pointId v, lastWritten past pointId = some v →
    ∃ nt, lastFor pointId (delivered past ++ c.outq.toList) = some nt ∧
      Agrees (metas pointId) nt.value v

/-- Behind a report that spares the frames, the last frame of its point is its own, and
those of the other points are as they were. -/
theorem lastFor_reported {c : RtdbdConn} {nt : RtdbdNotify} (st : RtdbdStats) (now : Nat)
    (hspares : c.outq.count = rtdbdOutqCap → c.outq.sent = 0 ∧
      ∃ later ∈ c.outq.toList.tail ++ [nt], later.pointId = (c.outq.buf c.outq.head).pointId)
    (before : List RtdbdNotify) :
    lastFor nt.pointId (before ++ (outqPush c.outq st nt now).1.toList) = some nt ∧
      ∀ q, q ≠ nt.pointId →
        lastFor q (before ++ (outqPush c.outq st nt now).1.toList) =
          lastFor q (before ++ c.outq.toList) := by
  rw [toList_outqPush]
  rcases Nat.lt_or_eq_of_le c.outq.count_le with hroom | hfull
  · have hlen : (c.outq.toList ++ [nt]).length ≤ rtdbdOutqCap := by
      rw [List.length_append, Outq.length_toList, List.length_singleton]
      exact hroom
    rw [if_neg fun h => Nat.ne_of_lt hroom h.1, lastOf_of_length_le hlen, ← List.append_assoc]
    exact ⟨lastFor_push_self _ nt, fun q hq => lastFor_push_of_ne _ (Ne.symm hq)⟩
  · obtain ⟨hsent, hlater⟩ := hspares hfull
    have hlist := c.outq.toList_eq_cons (c.outq.pos_of_full hfull)
    have hlen : (c.outq.toList ++ [nt]).length - rtdbdOutqCap = 1 := by
      rw [List.length_append, Outq.length_toList, hfull, List.length_singleton,
        Nat.add_sub_cancel_left]
    rw [if_neg fun h => absurd h.2 (by omega), lastOf, hlen]
    rw [hlist] at hlater ⊢
    rw [List.tail_cons] at hlater
    rw [List.cons_append, List.drop_one, List.tail_cons]
    refine ⟨?_, fun q hq => ?_⟩
    · rw [← List.append_assoc]
      exact lastFor_push_self _ nt
    · rw [← lastFor_drop hlater, ← List.cons_append, ← List.append_assoc]
      exact lastFor_push_of_ne _ (Ne.symm hq)

/-- A flush that keeps the connection open leaves the rest of the queue. -/
theorem outqFlush_kept {results : List SendResult} {c : RtdbdConn} {st : RtdbdStats} {now : Nat}
    (hopen : (outqFlush results c st now).2.2.2 = true) :
    (outqFlush results c st now).2.1 = { c with outq := (outqFlushLoop results c.outq).2.1 } := by
  unfold outqFlush at hopen ⊢
  split
  next bytes q hloop => rw [hloop]
  next bytes q hloop =>
    rw [hloop] at hopen
    cases hopen

section

variable {metas : Nat → IndurtdbMeta} {past : List (RtdbdConn × LinkEvent)} {c : RtdbdConn}

/-- A write the connection is not told of. -/
theorem Tracks.silent (h : Tracks metas past c) {nt : RtdbdNotify} (st : RtdbdStats) (now : Nat)
    (hnot : ¬ Reports nt.pointId nt.value (metas nt.pointId) c) :
    Tracks metas ((c, .write nt st now) :: past) c := by
  refine ⟨h.isOpen, h.packed, h.baseline, fun pointId v hwritten => ?_⟩
  simp only [lastWritten] at hwritten
  split at hwritten
  next hsub =>
    obtain ⟨rfl, hsub⟩ := hsub
    obtain rfl := Option.some.inj hwritten
    have hdecide : (rbeDecide c.rbe nt.pointId nt.value (metas nt.pointId)).1 = false :=
      Bool.eq_false_iff.mpr fun htrue => hnot ⟨h.isOpen, hsub, htrue⟩
    obtain ⟨last, hbaseline, hsilent⟩ :=
      (rbeDecide_spec h.packed nt.pointId nt.value (metas nt.pointId)).2.2.2 hdecide
    obtain ⟨sent, hlast, rfl⟩ := h.baseline nt.pointId last hbaseline
    exact ⟨sent, hlast, agrees_of_silent hsilent⟩
  next => exact h.written pointId v hwritten

/-- A write that is reported. -/
theorem Tracks.reported (hvalid : ∀ pointId, indurtdbValidatePointMeta (metas pointId) = none)
    (h : Tracks metas past c) {nt : RtdbdNotify} (st : RtdbdStats) (now : Nat)
    (hreports : Reports nt.pointId nt.value (metas nt.pointId) c)
    (hspares : Link.Spares metas c (.write nt st now)) :
    Tracks metas ((c, .write nt st now) :: past)
      { c with
        rbe := (rbeDecide c.rbe nt.pointId nt.value (metas nt.pointId)).2
        outq := (outqPush c.outq st nt now).1 } := by
  obtain ⟨hpacked, hothers, hown, -⟩ :=
    rbeDecide_spec h.packed nt.pointId nt.value (metas nt.pointId)
  obtain ⟨hlast, hkept⟩ := lastFor_reported st now (hspares hreports) (delivered past)
  refine ⟨h.isOpen, hpacked, fun pointId v hbaseline => ?_, fun pointId v hwritten => ?_⟩
  · rcases Decidable.em (pointId = nt.pointId) with rfl | hne
    · exact ⟨nt, hlast, (hown hreports.2.2 v hbaseline).symm⟩
    · rw [hothers pointId hne] at hbaseline
      obtain ⟨sent, hsent, hvalue⟩ := h.baseline pointId v hbaseline
      exact ⟨sent, (hkept pointId hne).trans hsent, hvalue⟩
  · simp only [lastWritten] at hwritten
    split at hwritten
    next hsub =>
      obtain ⟨rfl, -⟩ := hsub
      obtain rfl := Option.some.inj hwritten
      exact ⟨nt, hlast, agrees_self (hvalid nt.pointId) nt.value⟩
    next hother =>
      have hne : pointId ≠ nt.pointId := fun heq => hother ⟨heq.symm, heq ▸ hreports.2.1⟩
      obtain ⟨sent, hsent, hagrees⟩ := h.written pointId v hwritten
      exact ⟨sent, (hkept pointId hne).trans hsent, hagrees⟩

/-- Every event keeps track, if it spares the frames. -/
theorem Tracks.after (hvalid : ∀ pointId, indurtdbValidatePointMeta (metas pointId) = none)
    (h : Tracks metas past c) {e : LinkEvent} (hen : Link.Enabled c e)
    (hspares : Link.Spares metas c e) : Tracks metas ((c, e) :: past) (Link.after metas c e) := by
  cases e with
  | subscribe pointId =>
      obtain ⟨subs, hsubs⟩ := addSub_eq c pointId
      rw [Link.after, hsubs]
      exact ⟨h.isOpen, h.packed, h.baseline, h.written⟩
  | flush results st now =>
      have hframes : delivered ((c, .flush results st now) :: past) ++
          (outqFlushLoop results c.outq).2.1.toList = delivered past ++ c.outq.toList := by
        rw [delivered, List.append_assoc, flushedBy_append]
      rw [Link.after, outqFlush_kept hen]
      refine ⟨h.isOpen, h.packed, fun pointId v hbaseline => ?_, fun pointId v hwritten => ?_⟩
      · rw [hframes]
        exact h.baseline pointId v hbaseline
      · rw [hframes]
        exact h.written pointId v hwritten
  | write nt st now =>
      rw [Link.after]
      rcases Decidable.em (Reports nt.pointId nt.value (metas nt.pointId) c) with hreports | hnot
      · rw [offer_of_reports hreports]
        exact h.reported hvalid st now hreports hspares
      · rw [offer_of_not_reports hnot]
        exact h.silent st now hnot

end

end InduRtdb.Daemon
