/-
  Daemon/Counters.lean --- what the counters of the daemon tell about its run.

  Source: `rtdbd/src/stats.c`, and the places of `rtdbd/src/rtdbd.c` that count.

  Every place that counts an error also notes the time, and no other place does, so
  the time of the last error is that of the last event after which more errors are
  counted.  A notification is pushed on a queue, and leaves it whole through the
  socket or into `notify_drop`.
-/
import InduRtdb.Daemon.Announce
import InduRtdb.Daemon.Outgoing
import InduRtdb.Daemon.Subscriptions
import Mathlib.Algebra.BigOperators.Group.Finset.Basic
import Mathlib.Algebra.BigOperators.Intervals

set_option autoImplicit false

namespace InduRtdb.Daemon

open InduRtdb.Core InduRtdb.Api InduRtdb.Lib

/-! ## One step of the counters -/

/-- The counters that are kept with `rtdbd_stats_note_error`. -/
def RtdbdStats.errors (st : RtdbdStats) : Nat :=
  st.decodeFail + st.writeRejected + st.writeError + st.notifyDrop + st.notifySendFail

/-- No counter falls. -/
structure RtdbdStats.Grows (st st' : RtdbdStats) : Prop where
  nWrites : st.nWrites ≤ st'.nWrites
  nNotifies : st.nNotifies ≤ st'.nNotifies
  decodeFail : st.decodeFail ≤ st'.decodeFail
  writeRejected : st.writeRejected ≤ st'.writeRejected
  writeError : st.writeError ≤ st'.writeError
  notifyDrop : st.notifyDrop ≤ st'.notifyDrop
  notifySendFail : st.notifySendFail ≤ st'.notifySendFail
  startNs : st'.startNs = st.startNs

/-- A step at time `now`: the counters grow, and the time of the last error is `now`
exactly when errors have been counted. -/
structure RtdbdStats.Counts (now : Nat) (st st' : RtdbdStats) : Prop extends st.Grows st' where
  noted : st'.errors = st.errors ∧ st'.lastErrNs = st.lastErrNs ∨
    st.errors < st'.errors ∧ st'.lastErrNs = now

namespace RtdbdStats

variable {now : Nat} {st st' st'' : RtdbdStats}

theorem Grows.refl (st : RtdbdStats) : st.Grows st := by constructor <;> simp

theorem Grows.trans (h : st.Grows st') (h' : st'.Grows st'') : st.Grows st'' where
  nWrites := h.nWrites.trans h'.nWrites
  nNotifies := h.nNotifies.trans h'.nNotifies
  decodeFail := h.decodeFail.trans h'.decodeFail
  writeRejected := h.writeRejected.trans h'.writeRejected
  writeError := h.writeError.trans h'.writeError
  notifyDrop := h.notifyDrop.trans h'.notifyDrop
  notifySendFail := h.notifySendFail.trans h'.notifySendFail
  startNs := h'.startNs.trans h.startNs

theorem Counts.refl (now : Nat) (st : RtdbdStats) : st.Counts now st :=
  ⟨.refl st, .inl ⟨rfl, rfl⟩⟩

theorem Counts.trans (h : st.Counts now st') (h' : st'.Counts now st'') : st.Counts now st'' := by
  refine ⟨h.toGrows.trans h'.toGrows, ?_⟩
  rcases h.noted with ⟨herr, hlast⟩ | ⟨herr, hlast⟩
  · rcases h'.noted with ⟨herr', hlast'⟩ | ⟨herr', hlast'⟩
    · exact .inl ⟨herr'.trans herr, hlast'.trans hlast⟩
    · exact .inr ⟨herr ▸ herr', hlast'⟩
  · rcases h'.noted with ⟨herr', hlast'⟩ | ⟨herr', hlast'⟩
    · exact .inr ⟨herr' ▸ herr, hlast'.trans hlast⟩
    · exact .inr ⟨herr.trans herr', hlast'⟩

/-- One more error of some kind, noted. -/
theorem Counts.error (hgrows : st.Grows st') (herr : st.errors < st'.errors) :
    st.Counts now (st'.noteError now) where
  toGrows := ⟨hgrows.nWrites, hgrows.nNotifies, hgrows.decodeFail, hgrows.writeRejected,
    hgrows.writeError, hgrows.notifyDrop, hgrows.notifySendFail, hgrows.startNs⟩
  noted := .inr ⟨herr, rfl⟩

theorem counts_decodeFail (now : Nat) (st : RtdbdStats) :
    st.Counts now ({ st with decodeFail := st.decodeFail + 1 }.noteError now) := by
  refine .error (by constructor <;> simp) ?_
  simp only [errors]
  omega

theorem counts_writeRejected (now : Nat) (st : RtdbdStats) :
    st.Counts now ({ st with writeRejected := st.writeRejected + 1 }.noteError now) := by
  refine .error (by constructor <;> simp) ?_
  simp only [errors]
  omega

theorem counts_writeError (now : Nat) (st : RtdbdStats) :
    st.Counts now ({ st with writeError := st.writeError + 1 }.noteError now) := by
  refine .error (by constructor <;> simp) ?_
  simp only [errors]
  omega

theorem counts_nWrites (now : Nat) (st : RtdbdStats) :
    st.Counts now { st with nWrites := st.nWrites + 1 } :=
  ⟨by constructor <;> simp, .inl ⟨rfl, rfl⟩⟩

end RtdbdStats

/-! ## The queues -/

theorem outqPush_counts (q : Outq) (st : RtdbdStats) (nt : RtdbdNotify) (now : Nat) :
    st.Counts now (outqPush q st nt now).2 := by
  unfold outqPush
  split
  next =>
    dsimp only
    split
    next =>
      refine .error (by constructor <;> simp) ?_
      simp only [RtdbdStats.errors]
      omega
    next =>
      refine ⟨by constructor <;> simp [RtdbdStats.noteError], .inr ⟨?_, rfl⟩⟩
      simp only [RtdbdStats.errors, RtdbdStats.noteError]
      omega
  next => exact ⟨by constructor <;> simp, .inl ⟨rfl, rfl⟩⟩

theorem discardOutq_counts (c : RtdbdConn) (st : RtdbdStats) (now : Nat) :
    st.Counts now (c.discardOutq st now).2 := by
  unfold RtdbdConn.discardOutq
  dsimp only
  split
  next hpos =>
    refine .error (by constructor <;> simp) ?_
    simp only [RtdbdStats.errors]
    omega
  next => exact .refl now st

/-- What a discard takes from the queue is counted. -/
theorem discardOutq_notifyDrop (c : RtdbdConn) (st : RtdbdStats) (now : Nat) :
    (c.discardOutq st now).2.notifyDrop = st.notifyDrop + c.outq.count := by
  unfold RtdbdConn.discardOutq
  dsimp only
  split
  next => rfl
  next hzero => omega

theorem outqFlush_counts (results : List SendResult) (c : RtdbdConn) (st : RtdbdStats)
    (now : Nat) : st.Counts now (outqFlush results c st now).2.2.1 := by
  unfold outqFlush
  split
  next => exact .refl now st
  next bytes q _ =>
    refine (discardOutq_counts { c with outq := q } st now).trans ?_
    refine .error (by constructor <;> simp) ?_
    simp only [RtdbdStats.errors]
    omega

theorem offer_counts (nt : RtdbdNotify) (m : IndurtdbMeta) (now : Nat) (c : RtdbdConn)
    (st : RtdbdStats) : st.Counts now (offer nt m now c st).2 := by
  rcases Decidable.em (Reports nt.pointId nt.value m c) with hreports | hnot
  · rw [offer_of_reports hreports]
    exact outqPush_counts c.outq st nt now
  · rw [offer_of_not_reports hnot]
    exact .refl now st

theorem offerLoop_counts (nt : RtdbdNotify) (m : IndurtdbMeta) (now n : Nat) :
    ∀ i conns (st : RtdbdStats), st.Counts now (offerLoop nt m now n i conns st).2 := by
  induction n with
  | zero => exact fun _ _ st => .refl now st
  | succ n ih => exact fun i conns st => (offer_counts nt m now (conns i) st).trans (ih _ _ _)

theorem notifyBroadcast_counts (d : Rtdbd) (w : RtdbdWriteReq) (m : IndurtdbMeta) (now : Nat) :
    d.stats.Counts now (notifyBroadcast d w m now).stats :=
  offerLoop_counts (notifyOf d.h w) m now rtdbdMaxClients 0 d.conns d.stats

/-! ## Requests -/

/-- Beside a broadcast, the daemon counts, but not in the counters of the notifications,
and leaves the queues alone. -/
structure CountsBeside (now : Nat) (d d' : Rtdbd) : Prop where
  counts : d.stats.Counts now d'.stats
  notifyDrop : d'.stats.notifyDrop = d.stats.notifyDrop
  outq : ∀ j, (d'.conns j).outq = (d.conns j).outq

theorem CountsBeside.same {now : Nat} {d d' : Rtdbd} (hstats : d'.stats = d.stats)
    (hconns : d'.conns = d.conns) : CountsBeside now d d' where
  counts := hstats ▸ .refl now _
  notifyDrop := by rw [hstats]
  outq := fun j => by rw [hconns]

theorem CountsBeside.counted {now : Nat} {d : Rtdbd} {st : RtdbdStats}
    (hcounts : d.stats.Counts now st) (hdrop : st.notifyDrop = d.stats.notifyDrop) :
    CountsBeside now d { d with stats := st } := ⟨hcounts, hdrop, fun _ => rfl⟩

/-- The handler leaves the daemon in this relation to what it found. -/
def Keeps (R : Nat → Rtdbd → Rtdbd → Prop) (op : Handler) : Prop :=
  ∀ cx, R cx.env.now cx.d (op cx).2.d

/-- The handler has no notification to send. -/
abbrev Sober (op : Handler) : Prop := Keeps CountsBeside op

theorem respond_d (cx : RtdbdCtx) (status : Nat) (payload : List UInt8) :
    (cx.respond status payload).2.d = cx.d := by
  obtain ⟨k, room, heq, -⟩ := respond_eq cx status payload
  rw [heq]

theorem CountsBeside.refl (now : Nat) (d : Rtdbd) : CountsBeside now d d := .same rfl rfl

theorem CountsBeside.respond {now : Nat} {d : Rtdbd} {cx : RtdbdCtx}
    (h : CountsBeside now d cx.d) (status : Nat) (payload : List UInt8) :
    CountsBeside now d (cx.respond status payload).2.d := by
  rw [respond_d]
  exact h

section

variable {R : Nat → Rtdbd → Rtdbd → Prop}

theorem keeps_withPayload (hrefl : ∀ now d, R now d d) {size : Nat} {k : List UInt8 → Handler}
    (hk : ∀ bytes, Keeps R (k bytes)) : Keeps R fun cx => cx.withPayload size k := by
  intro cx
  unfold RtdbdCtx.withPayload RtdbdCtx.refuse
  dsimp only
  split
  · rw [respond_d]
    exact hrefl _ _
  · split
    next =>
      rw [respond_d]
      exact hrefl _ _
    next bytes sock _ => exact hk bytes { cx with sock := sock }

theorem keeps_withPeer (hrefl : ∀ now d, R now d d) {k : Nat → Nat → Handler}
    (hk : ∀ pid uid, Keeps R (k pid uid)) : Keeps R fun cx => cx.withPeer k := by
  intro cx
  unfold RtdbdCtx.withPeer RtdbdCtx.refuse
  dsimp only
  split
  · rw [respond_d]
    exact hrefl _ _
  · exact hk _ _ cx

end

theorem sober_withPayload {size : Nat} {k : List UInt8 → Handler} (hk : ∀ bytes, Sober (k bytes)) :
    Sober fun cx => cx.withPayload size k := keeps_withPayload .refl hk

theorem opPing_sober : Sober opPing := fun _ => (CountsBeside.refl _ _).respond _ _

theorem opAuditDump_sober : Sober opAuditDump := fun _ => (CountsBeside.refl _ _).respond _ _

theorem opFindByName_sober : Sober opFindByName := by
  refine sober_withPayload fun bytes cx => ?_
  dsimp only
  split
  · exact (CountsBeside.refl _ _).respond _ _
  · split <;> exact (CountsBeside.refl _ _).respond _ _

theorem opGetMeta_sober : Sober opGetMeta := by
  refine sober_withPayload fun bytes cx => ?_
  split <;> exact (CountsBeside.refl _ _).respond _ _

theorem opGet_sober : Sober opGet := by
  refine sober_withPayload fun bytes cx => ?_
  split <;> exact (CountsBeside.refl _ _).respond _ _

theorem opList_sober : Sober opList := by
  refine sober_withPayload fun bytes cx => ?_
  dsimp only
  split <;> exact (CountsBeside.refl _ _).respond _ _

theorem opGetLog_sober : Sober opGetLog :=
  sober_withPayload fun _ _ => (CountsBeside.refl _ _).respond _ _

theorem opHealth_sober : Sober opHealth := by
  intro cx
  unfold opHealth
  split
  · unfold RtdbdCtx.refuse
    rw [respond_d]
    exact .counted (RtdbdStats.counts_decodeFail cx.env.now cx.d.stats) rfl
  · exact (CountsBeside.refl _ _).respond _ _

/-- A change of one connection that leaves its queue. -/
theorem CountsBeside.setConn {now : Nat} (cx : RtdbdCtx) {c : RtdbdConn}
    (houtq : c.outq = cx.conn.outq) : CountsBeside now cx.d (cx.setConn c).d where
  counts := .refl now _
  notifyDrop := rfl
  outq := fun j => by
    rcases eq_or_ne j cx.slot with rfl | hne
    · rw [setConn_conns, Function.update_self, houtq]
      rfl
    · rw [setConn_conns, Function.update_of_ne hne]

theorem addSub_outq (c : RtdbdConn) (pointId : Nat) : (c.addSub pointId).2.outq = c.outq := by
  unfold RtdbdConn.addSub
  split
  · rfl
  · split <;> rfl

theorem delSub_outq (c : RtdbdConn) (pointId : Nat) : (c.delSub pointId).outq = c.outq := by
  unfold RtdbdConn.delSub
  dsimp only
  split <;> rfl

theorem opSubscribe_sober : Sober opSubscribe := by
  refine sober_withPayload fun bytes cx => ?_
  dsimp only
  split
  · have houtq := addSub_outq cx.conn (fieldAt bytes 0 4)
    split
    next c heq =>
      rw [heq] at houtq
      exact (CountsBeside.setConn cx houtq).respond _ _
    next c heq =>
      rw [heq] at houtq
      exact (CountsBeside.setConn cx houtq).respond _ _
  · exact (CountsBeside.setConn cx (delSub_outq cx.conn _)).respond _ _

theorem opSelect_sober : Sober opSelect := by
  refine sober_withPayload fun bytes cx => ?_
  dsimp only
  split
  · exact (CountsBeside.refl _ _).respond _ _
  · rw [respond_d]
    exact .setConn cx rfl

theorem opManaged_sober (op : Managed) : Sober (opManaged op) := by
  refine sober_withPayload fun bytes => keeps_withPeer .refl fun pid uid cx => ?_
  dsimp only
  split
  · exact (CountsBeside.refl _ _).respond _ _
  · split
    · exact (CountsBeside.refl _ _).respond _ _
    · split
      · rw [respond_d]
        exact .same (stats_logged _ _) (conns_logged _ _)
      · rw [respond_d]
        exact .same rfl rfl

/-- What a request leaves: beside a broadcast the counters grow, and the broadcast comes
with one more write. -/
def CountsTold (now : Nat) (d d' : Rtdbd) : Prop :=
  ∃ stored, CountsBeside now d stored ∧
    (d' = stored ∨ stored.stats.nWrites = d.stats.nWrites + 1 ∧
      ∃ w m, d' = notifyBroadcast stored w m now)

theorem CountsTold.beside {now : Nat} {d d' : Rtdbd} (h : CountsBeside now d d') :
    CountsTold now d d' := ⟨d', h, .inl rfl⟩

theorem Keeps.told {op : Handler} (h : Sober op) : Keeps CountsTold op := fun cx => .beside (h cx)

theorem opWrite_told : Keeps CountsTold opWrite := by
  have hrefl : ∀ now d, CountsTold now d d := fun now d => .beside (.refl now d)
  refine keeps_withPayload hrefl fun bytes => keeps_withPeer hrefl fun pid uid cx => ?_
  have hrejected : CountsTold cx.env.now cx.d cx.rejectWrite.2.d := by
    unfold RtdbdCtx.rejectWrite
    rw [respond_d]
    exact .beside (.counted (RtdbdStats.counts_writeRejected cx.env.now cx.d.stats) rfl)
  dsimp only
  split
  · exact hrejected
  · split
    · exact hrejected
    · split
      next h _ =>
        rw [respond_d]
        exact .beside (.same rfl rfl)
      next h _ =>
        rw [respond_d]
        exact .beside ⟨RtdbdStats.counts_writeError cx.env.now cx.d.stats, rfl, fun _ => rfl⟩
      next m h _ =>
        unfold RtdbdCtx.respondAndBroadcast
        have hstored := respond_d (RtdbdCtx.wrote { cx with d := { cx.d with h := h } } pid uid
          cx.conn.partition (RtdbdWriteReq.ofBytes bytes).pointId) rtdbdStOk []
        have henv := respond_env (RtdbdCtx.wrote { cx with d := { cx.d with h := h } } pid uid
          cx.conn.partition (RtdbdWriteReq.ofBytes bytes).pointId) rtdbdStOk []
        refine ⟨(RtdbdCtx.wrote { cx with d := { cx.d with h := h } } pid uid
          cx.conn.partition (RtdbdWriteReq.ofBytes bytes).pointId).d,
          ⟨RtdbdStats.counts_nWrites cx.env.now cx.d.stats, rfl, fun _ => rfl⟩, ?_⟩
        split
        next cx' heq =>
          rw [heq] at hstored
          exact .inl hstored
        next cx' heq =>
          rw [heq] at hstored henv
          refine .inr ⟨rfl, RtdbdWriteReq.ofBytes bytes, m, ?_⟩
          change notifyBroadcast cx'.d _ m cx'.env.now = _
          rw [hstored, henv]
          rfl

theorem kOps_told : ∀ op ∈ kOps, Keeps CountsTold op.2 := by
  intro op hop
  simp only [kOps, List.mem_cons, List.not_mem_nil, or_false] at hop
  rcases hop with rfl | rfl | rfl | rfl | rfl | rfl | rfl | rfl | rfl | rfl | rfl | rfl | rfl |
    rfl | rfl | rfl
  · exact opPing_sober.told
  · exact opWrite_told
  · exact opSubscribe_sober.told
  · exact opSubscribe_sober.told
  · exact opAuditDump_sober.told
  · exact opFindByName_sober.told
  · exact opGetMeta_sober.told
  · exact (opManaged_sober setMeta).told
  · exact (opManaged_sober createPoint).told
  · exact (opManaged_sober deletePoint).told
  · exact (opManaged_sober renamePoint).told
  · exact opGet_sober.told
  · exact opList_sober.told
  · exact opGetLog_sober.told
  · exact opHealth_sober.told
  · exact opSelect_sober.told

theorem dispatch_told : Keeps CountsTold dispatch := by
  intro cx
  unfold dispatch
  split
  next op hfound => exact kOps_told op (List.mem_of_find?_eq_some hfound) cx
  next =>
    unfold RtdbdCtx.refuse
    rw [respond_d]
    exact .beside (.refl _ _)

/-- **Every request counts so.** -/
theorem handleRequest_told (d : Rtdbd) (slot : Nat) (sock : Socket) (env : Env) :
    CountsTold env.now d (handleRequest d slot sock env).d := by
  unfold handleRequest
  split
  next => exact .beside (.refl _ _)
  next bytes sock _ =>
    dsimp only
    split
    · exact dispatch_told ⟨d, slot, sock, RtdbdReqHdr.ofBytes bytes, env⟩
    · exact .beside (.counted (RtdbdStats.counts_decodeFail env.now d.stats) rfl)

theorem CountsTold.counts {now : Nat} {d d' : Rtdbd} (h : CountsTold now d d') :
    d.stats.Counts now d'.stats := by
  obtain ⟨stored, hbeside, rfl | ⟨-, w, m, rfl⟩⟩ := h
  · exact hbeside.counts
  · exact hbeside.counts.trans (notifyBroadcast_counts stored w m now)

/-! ## The loop -/

/-- The clock reading of an event. -/
def LoopEvent.clock : LoopEvent → Option Nat
  | .accept _ _ => none
  | .request _ _ _ env => some env.now
  | .flush _ _ now => some now

namespace EventLoop

/-- The counters go through an event at its clock reading; accepting counts nothing. -/
theorem after_counts (s : EventLoop) (e : LoopEvent) :
    (e.clock = none ∧ (s.after e).d.stats = s.d.stats) ∨
      ∃ now, e.clock = some now ∧ s.d.stats.Counts now (s.after e).d.stats := by
  cases e with
  | accept slot fd => exact .inl ⟨rfl, rfl⟩
  | request slot input room env =>
      refine .inr ⟨env.now, rfl, ?_⟩
      have htold := (handleRequest_told s.d slot ⟨input, room, s.wire slot⟩ env).counts
      unfold after
      dsimp only
      split
      · exact htold
      · exact htold.trans (discardOutq_counts _ _ _)
  | flush slot results now => exact .inr ⟨now, rfl, outqFlush_counts _ _ _ _⟩

theorem after_grows (s : EventLoop) (e : LoopEvent) : s.d.stats.Grows (s.after e).d.stats := by
  rcases s.after_counts e with ⟨-, heq⟩ | ⟨now, -, hcounts⟩
  · rw [heq]
    exact .refl _
  · exact hcounts.toGrows

end EventLoop

/-! ## Where the notifications go -/

/-- The notifications in the queues of the table. -/
def Rtdbd.queued (d : Rtdbd) : Nat := ∑ k ∈ Finset.range rtdbdMaxClients, (d.conns k).outq.count

namespace EventLoop

/-- The notifications that an event has for the queues: a write that is stored, and
answered, is told to every connection it is reported to. -/
def pushes (s : EventLoop) : LoopEvent → Nat
  | .request slot input room env =>
      if (s.handled slot input room env).d.stats.nWrites ≠ s.d.stats.nWrites ∧
          Socket.Takes ⟨input, room, s.wire slot⟩ sizeofHdr then
        (List.range' 0 rtdbdMaxClients).countP fun j =>
          decide (Reports (writeOf input).pointId
            (indurtdbValueToDouble (writeOf input).type (writeOf input).valueBits)
            (metaOf s.d.h (writeOf input).pointId) (s.d.conns j))
      else 0
  | _ => 0

/-- The notifications that an event sends to their last byte. -/
def delivers (s : EventLoop) : LoopEvent → Nat
  | .flush slot results _ =>
      (s.d.conns slot).outq.count - (outqFlushLoop results (s.d.conns slot).outq).2.1.count
  | _ => 0

end EventLoop

/-- Another queue in one place. -/
theorem queued_update (d d' : Rtdbd) {slot : Nat} (hslot : slot < rtdbdMaxClients)
    (hother : ∀ j, j ≠ slot → (d'.conns j).outq = (d.conns j).outq) :
    d'.queued + (d.conns slot).outq.count = d.queued + (d'.conns slot).outq.count := by
  have hmem : slot ∈ Finset.range rtdbdMaxClients := Finset.mem_range.mpr hslot
  have hrest : ∑ k ∈ (Finset.range rtdbdMaxClients).erase slot, (d'.conns k).outq.count =
      ∑ k ∈ (Finset.range rtdbdMaxClients).erase slot, (d.conns k).outq.count := by
    refine Finset.sum_congr rfl fun k hk => ?_
    rw [hother k (Finset.ne_of_mem_erase hk)]
  rw [Rtdbd.queued, Rtdbd.queued, ← Finset.add_sum_erase _ _ hmem,
    ← Finset.add_sum_erase _ (fun k => (d.conns k).outq.count) hmem, hrest]
  omega

theorem queued_congr {d d' : Rtdbd} (hsame : ∀ j, (d'.conns j).outq = (d.conns j).outq) :
    d'.queued = d.queued :=
  Finset.sum_congr rfl fun k _ => by rw [hsame k]

/-- An offer that is reported adds one notification to those queued and dropped. -/
theorem offer_balance (nt : RtdbdNotify) (m : IndurtdbMeta) (now : Nat) (c : RtdbdConn)
    (st : RtdbdStats) :
    (offer nt m now c st).1.outq.count + (offer nt m now c st).2.notifyDrop =
      c.outq.count + st.notifyDrop + if Reports nt.pointId nt.value m c then 1 else 0 := by
  rcases Decidable.em (Reports nt.pointId nt.value m c) with hreports | hnot
  · rw [offer_of_reports hreports, if_pos hreports]
    exact count_outqPush c.outq st nt now
  · rw [offer_of_not_reports hnot, if_neg hnot]
    rfl

theorem offerLoop_balance (nt : RtdbdNotify) (m : IndurtdbMeta) (now n : Nat) :
    ∀ i conns st,
      (∑ k ∈ Finset.Ico i (i + n), ((offerLoop nt m now n i conns st).1 k).outq.count) +
          (offerLoop nt m now n i conns st).2.notifyDrop =
        (∑ k ∈ Finset.Ico i (i + n), (conns k).outq.count) + st.notifyDrop +
          (List.range' i n).countP fun j => decide (Reports nt.pointId nt.value m (conns j)) := by
  induction n with
  | zero =>
      intro i conns st
      simp [offerLoop]
  | succ n ih =>
      intro i conns st
      have hlater := ih (i + 1) (Function.update conns i (offer nt m now (conns i) st).1)
        (offer nt m now (conns i) st).2
      have hfirst := offer_balance nt m now (conns i) st
      have hkept : (offerLoop nt m now n (i + 1)
          (Function.update conns i (offer nt m now (conns i) st).1)
          (offer nt m now (conns i) st).2).1 i = (offer nt m now (conns i) st).1 := by
        rw [offerLoop_conns nt m now st, if_neg (by omega), Function.update_self]
      have hsum : ∑ k ∈ Finset.Ico (i + 1) (i + 1 + n),
            (Function.update conns i (offer nt m now (conns i) st).1 k).outq.count =
          ∑ k ∈ Finset.Ico (i + 1) (i + 1 + n), (conns k).outq.count := by
        refine Finset.sum_congr rfl fun k hk => ?_
        rw [Function.update_of_ne (by have := (Finset.mem_Ico.mp hk).1; omega)]
      have hcount : (List.range' (i + 1) n).countP (fun j =>
            decide (Reports nt.pointId nt.value m
              (Function.update conns i (offer nt m now (conns i) st).1 j))) =
          (List.range' (i + 1) n).countP fun j =>
            decide (Reports nt.pointId nt.value m (conns j)) := by
        refine List.countP_congr fun j hj => ?_
        rw [Function.update_of_ne (by have := (List.mem_range'_1.mp hj).1; omega)]
      rw [hsum, hcount] at hlater
      have hend : i + (n + 1) = i + 1 + n := by omega
      rw [offerLoop, hend, Finset.sum_eq_sum_Ico_succ_bot (by omega),
        Finset.sum_eq_sum_Ico_succ_bot (by omega) fun k => (conns k).outq.count, hkept,
        List.range'_succ, List.countP_cons]
      simp only [decide_eq_true_eq]
      omega

/-- A broadcast adds one notification for each connection it is reported to. -/
theorem notifyBroadcast_balance (d : Rtdbd) (w : RtdbdWriteReq) (m : IndurtdbMeta) (now : Nat) :
    (notifyBroadcast d w m now).queued + (notifyBroadcast d w m now).stats.notifyDrop =
      d.queued + d.stats.notifyDrop + (List.range' 0 rtdbdMaxClients).countP fun j =>
        decide (Reports w.pointId (indurtdbValueToDouble w.type w.valueBits) m (d.conns j)) := by
  have hloop := offerLoop_balance (notifyOf d.h w) m now rtdbdMaxClients 0 d.conns d.stats
  rw [Nat.zero_add, ← Finset.range_eq_Ico] at hloop
  exact hloop

/-- A request adds what it pushes. -/
theorem handleRequest_balance (s : EventLoop) (slot : Nat) (input : List UInt8)
    (room : Option Nat) (env : Env) :
    (s.handled slot input room env).d.queued +
        (s.handled slot input room env).d.stats.notifyDrop =
      s.d.queued + s.d.stats.notifyDrop + s.pushes (.request slot input room env) := by
  rcases Decidable.em ((s.handled slot input room env).d.stats.nWrites = s.d.stats.nWrites) with
    hsame | hwrites
  · obtain ⟨stored, hbeside, heq | ⟨hmore, w, m, heq⟩⟩ :=
      handleRequest_told s.d slot ⟨input, room, s.wire slot⟩ env
    · have heq : (s.handled slot input room env).d = stored := heq
      rw [EventLoop.pushes, if_neg fun h => h.1 hsame, heq, queued_congr hbeside.outq,
        hbeside.notifyDrop, Nat.add_zero]
    · have heq : (s.handled slot input room env).d = notifyBroadcast stored w m env.now := heq
      have hgrows := (notifyBroadcast_counts stored w m env.now).nWrites
      rw [← heq, hsame, hmore] at hgrows
      omega
  · obtain ⟨stored, hconns, hdrop, hd⟩ := handleRequest_wrote hwrites
    have hqueued : stored.queued = s.d.queued := queued_congr fun j => by rw [hconns]
    have hd : (s.handled slot input room env).d = _ := hd
    rw [hd]
    split
    next htakes =>
      rw [notifyBroadcast_balance, hqueued, hdrop, EventLoop.pushes, if_pos ⟨hwrites, htakes⟩,
        hconns]
    next hnot =>
      rw [EventLoop.pushes, if_neg fun h => hnot h.2, hqueued, hdrop, Nat.add_zero]

/-- The loop of a flush takes whole frames from the queue. -/
theorem count_outqFlushLoop_le (results : List SendResult) (q : Outq) :
    (outqFlushLoop results q).2.1.count ≤ q.count := by
  obtain ⟨done, hlist, -⟩ := outqFlushLoop_frames results q
  have hlength := congrArg List.length hlist
  rw [List.length_append, Outq.length_toList, Outq.length_toList] at hlength
  omega

/-- What a flush leaves in the queue or counts as dropped is what it does not deliver. -/
theorem outqFlush_balance (results : List SendResult) (c : RtdbdConn) (st : RtdbdStats)
    (now : Nat) :
    (if (outqFlush results c st now).2.2.2 then (outqFlush results c st now).2.1.outq.count
        else 0) + (outqFlush results c st now).2.2.1.notifyDrop =
      (outqFlushLoop results c.outq).2.1.count + st.notifyDrop := by
  rcases hloop : outqFlushLoop results c.outq with ⟨bytes, q, _ | _⟩
  · simp only [outqFlush, hloop, Bool.false_eq_true, if_false, RtdbdStats.noteError]
    rw [discardOutq_notifyDrop]
    dsimp only
    omega
  · simp only [outqFlush, hloop, if_true]

/-- **Nothing is lost between the queues and the counter.** -/
theorem EventLoop.balanced {s : EventLoop} {e : LoopEvent} (hcan : s.Enabled e)
    (hfree : ∀ j, (s.d.conns j).fd < 0 → s.d.conns j = connInit) :
    s.d.queued + s.d.stats.notifyDrop + s.pushes e =
      (s.after e).d.queued + (s.after e).d.stats.notifyDrop + s.delivers e := by
  cases e with
  | accept slot fd =>
      have hempty : (s.d.conns slot).outq = Outq.empty := by
        rw [hfree slot hcan.2.1]
        rfl
      have hqueued : (s.after (.accept slot fd)).d.queued = s.d.queued := by
        refine queued_congr fun j => ?_
        rcases eq_or_ne j slot with rfl | hne
        · rw [EventLoop.after_accept_conn, hempty]
          rfl
        · simp only [EventLoop.after, Function.update_of_ne hne]
      rw [hqueued]
      rfl
  | request slot input room env =>
      have hbalance := handleRequest_balance s slot input room env
      have hkeep : ∀ d, (s.after (.request slot input room env)).d = d →
          d.queued + d.stats.notifyDrop =
            (s.handled slot input room env).d.queued +
              (s.handled slot input room env).d.stats.notifyDrop := by
        rintro d rfl
        unfold EventLoop.after
        dsimp only
        split
        · rfl
        · have hqueued := queued_update (s.handled slot input room env).d
            (closeConn (s.handled slot input room env).d slot env.now) hcan.1
            fun j hne => by simp only [closeConn, Function.update_of_ne hne]
          have hclosed : ((closeConn (s.handled slot input room env).d slot env.now).conns
              slot).outq.count = 0 := by
            simp only [closeConn, Function.update_self]
            rfl
          have hdrop : (closeConn (s.handled slot input room env).d slot env.now).stats.notifyDrop =
              _ := discardOutq_notifyDrop ((s.handled slot input room env).d.conns slot)
                (s.handled slot input room env).d.stats env.now
          omega
      have hafter := hkeep _ rfl
      simp only [EventLoop.delivers]
      omega
  | flush slot results now =>
      have hqueued := queued_update s.d (s.after (.flush slot results now)).d
        hcan.1.1 fun j hne => by simp only [EventLoop.after, Function.update_of_ne hne]
      have hbalance := outqFlush_balance results (s.d.conns slot) s.d.stats now
      have hcount : ((s.after (.flush slot results now)).d.conns slot).outq.count =
          if (outqFlush results (s.d.conns slot) s.d.stats now).2.2.2 then
            (outqFlush results (s.d.conns slot) s.d.stats now).2.1.outq.count else 0 := by
        simp only [EventLoop.after, Function.update_self]
        split
        · rfl
        · rfl
      have hstats : (s.after (.flush slot results now)).d.stats.notifyDrop =
          (outqFlush results (s.d.conns slot) s.d.stats now).2.2.1.notifyDrop := rfl
      have hle := count_outqFlushLoop_le results (s.d.conns slot).outq
      simp only [EventLoop.delivers, EventLoop.pushes]
      omega

/-! ## Over a run -/

section

variable {d : Rtdbd} {past : List (EventLoop × LoopEvent)} {s : EventLoop}

/-- From the start of a run on, every notification pushed has been delivered, is queued, or
has been counted as dropped. -/
theorem balanced_run (hstart : ∀ j, d.conns j = connInit)
    (hrun : EventLoop.Runs (.start d) past s) :
    (past.map fun p => p.1.pushes p.2).sum + d.stats.notifyDrop =
      (past.map fun p => p.1.delivers p.2).sum + s.d.queued + s.d.stats.notifyDrop := by
  have hboth : Tidy past s ∧ (past.map fun p => p.1.pushes p.2).sum + d.stats.notifyDrop =
      (past.map fun p => p.1.delivers p.2).sum + s.d.queued + s.d.stats.notifyDrop := by
    refine hrun.invariant (P := fun past s => Tidy past s ∧
      (past.map fun p => p.1.pushes p.2).sum + d.stats.notifyDrop =
        (past.map fun p => p.1.delivers p.2).sum + s.d.queued + s.d.stats.notifyDrop) ?_ ?_
    · refine ⟨tidy hstart .start, ?_⟩
      have hempty : (EventLoop.start d).d.queued = 0 :=
        Finset.sum_eq_zero fun k _ => by
          rw [show (EventLoop.start d).d.conns k = connInit from hstart k]
          rfl
      rw [hempty, List.map_nil, List.map_nil]
      rfl
    · intro past s e h hcan
      obtain ⟨htidy, hsum⟩ := h
      have hstep := EventLoop.balanced hcan fun j => htidy.free j
      refine ⟨htidy.after hcan, ?_⟩
      simp only [List.map_cons, List.sum_cons]
      omega
  exact hboth.2

end

/-! ## The health it reports -/

/-- More errors are counted behind the event. -/
def Errs (p : EventLoop × LoopEvent) : Prop :=
  p.1.d.stats.errors < (p.1.after p.2).d.stats.errors

instance (p : EventLoop × LoopEvent) : Decidable (Errs p) := inferInstanceAs (Decidable (_ < _))

/-- The clock of a run: it does not go back, and has not reached `now` yet or stands there. -/
structure Clocked (past : List (EventLoop × LoopEvent)) (now : Nat) : Prop where
  ordered : (past.filterMap fun p => p.2.clock).Pairwise (· ≥ ·)
  bounded : ∀ t ∈ past.filterMap (fun p => p.2.clock), 0 < t ∧ t ≤ now

/-- An error has been counted in the last minute. -/
def RecentError (past : List (EventLoop × LoopEvent)) (now : Nat) : Prop :=
  ∃ p ∈ past, Errs p ∧ now ≤ p.2.clock.getD 0 + 60 * 10 ^ 9

instance (past : List (EventLoop × LoopEvent)) (now : Nat) : Decidable (RecentError past now) :=
  inferInstanceAs (Decidable (∃ p ∈ past, _))

/-- What `op_health` computes: the health, the uptime and the open connections. -/
def Rtdbd.health (d : Rtdbd) (now : Nat) : Nat :=
  let core := if indurtdbHSelfCheck d.h then classify d.stats now else rtdbdHealthUnhealthy
  if core ≠ rtdbdHealthUnhealthy ∧ !connTableCheck d.conns rtdbdMaxClients then
    rtdbdHealthUnhealthy
  else core

def Rtdbd.uptime (d : Rtdbd) (now : Nat) : Nat :=
  if d.stats.startNs = 0 then 0 else now - d.stats.startNs

def Rtdbd.nConns (d : Rtdbd) : Nat :=
  (List.range rtdbdMaxClients).countP fun i => decide (0 ≤ (d.conns i).fd)

/-- `rtdbd_health_t`. -/
def Rtdbd.healthBytes (d : Rtdbd) (now : Nat) : List UInt8 :=
  le64 d.stats.nWrites ++ le64 d.stats.nNotifies ++ le64 d.stats.decodeFail
    ++ le64 d.stats.writeRejected ++ le64 d.stats.writeError ++ le64 d.stats.notifyDrop
    ++ le64 d.stats.notifySendFail ++ le64 (d.uptime now) ++ le32 (d.health now) ++ le32 d.nConns

theorem opHealth_eq {cx : RtdbdCtx} (hlen : cx.req.payloadLen = 0) :
    opHealth cx = cx.respond rtdbdStOk (cx.d.healthBytes cx.env.now) := by
  unfold opHealth
  rw [if_neg (not_not.mpr hlen)]
  rfl

/-- The time of the last error is that of the last event that counted one. -/
theorem lastErr_run {d : Rtdbd} {past : List (EventLoop × LoopEvent)} {s : EventLoop}
    (hlast : d.stats.lastErrNs = 0) (hrun : EventLoop.Runs (.start d) past s) :
    s.d.stats.lastErrNs =
      ((past.find? fun p => decide (Errs p)).bind fun p => p.2.clock).getD 0 := by
  refine hrun.invariant (P := fun past s => s.d.stats.lastErrNs =
    ((past.find? fun p => decide (Errs p)).bind fun p => p.2.clock).getD 0) hlast ?_
  intro past s e h _
  rcases s.after_counts e with ⟨-, heq⟩ | ⟨now, hclock, hcounts⟩
  · have hquiet : ¬ Errs (s, e) := by
      intro herrs
      rw [Errs, heq] at herrs
      exact Nat.lt_irrefl _ herrs
    rw [List.find?_cons_of_neg (by simpa using hquiet), heq]
    exact h
  · rcases hcounts.noted with ⟨hsame, hlast⟩ | ⟨hmore, hlast⟩
    · have hquiet : ¬ Errs (s, e) := fun herrs => absurd herrs (Nat.not_lt.mpr (Nat.le_of_eq hsame))
      rw [List.find?_cons_of_neg (by simpa using hquiet), hlast]
      exact h
    · have herrs : Errs (s, e) := hmore
      rw [List.find?_cons_of_pos (by simpa using herrs), hlast, Option.bind_some, hclock]
      rfl

/-- An event that counts an error reads the clock. -/
theorem clock_of_errs {p : EventLoop × LoopEvent} (h : Errs p) : ∃ t, p.2.clock = some t := by
  rcases p.1.after_counts p.2 with ⟨-, heq⟩ | ⟨now, hclock, -⟩
  · rw [Errs, heq] at h
    exact absurd h (Nat.lt_irrefl _)
  · exact ⟨now, hclock⟩

/-- The last error is the one that decides whether there is a recent one. -/
theorem recentError_iff {past : List (EventLoop × LoopEvent)} {now : Nat}
    (hclock : Clocked past now) :
    RecentError past now ↔ ∃ p, (past.find? fun p => decide (Errs p)) = some p ∧
      now ≤ p.2.clock.getD 0 + 60 * 10 ^ 9 := by
  induction past with
  | nil =>
      constructor
      · rintro ⟨p, hp, -⟩
        cases hp
      · rintro ⟨p, hfound, -⟩
        cases hfound
  | cons q past ih =>
      have hbehind : Clocked past now := by
        constructor
        · refine hclock.ordered.sublist ?_
          exact (List.sublist_cons_self q past).filterMap _
        · exact fun t ht => hclock.bounded t (by
            rw [List.filterMap_cons]
            split
            · exact ht
            · exact List.mem_cons_of_mem _ ht)
      rcases Decidable.em (Errs q) with herrs | hquiet
      · rw [List.find?_cons_of_pos (by simpa using herrs)]
        constructor
        · rintro ⟨p, hp, herrs', hle⟩
          refine ⟨q, rfl, ?_⟩
          rcases List.mem_cons.mp hp with rfl | hp
          · exact hle
          · obtain ⟨t, ht⟩ := clock_of_errs herrs
            obtain ⟨t', ht'⟩ := clock_of_errs herrs'
            have hordered := hclock.ordered
            rw [List.filterMap_cons_some (f := fun p : EventLoop × LoopEvent => p.2.clock) ht]
              at hordered
            have hge := (List.pairwise_cons.mp hordered).1 t'
              (List.mem_filterMap.mpr ⟨p, hp, ht'⟩)
            rw [ht', Option.getD_some] at hle
            rw [ht, Option.getD_some]
            omega
        · rintro ⟨p, hp, hle⟩
          obtain rfl := Option.some.inj hp
          exact ⟨q, List.mem_cons_self, herrs, hle⟩
      · rw [List.find?_cons_of_neg (by simpa using hquiet), ← ih hbehind]
        constructor
        · rintro ⟨p, hp, herrs, hrecent⟩
          rcases List.mem_cons.mp hp with rfl | hp
          · exact absurd herrs hquiet
          · exact ⟨p, hp, herrs, hrecent⟩
        · rintro ⟨p, hp, herrs, hrecent⟩
          exact ⟨p, List.mem_cons_of_mem _ hp, herrs, hrecent⟩

/-- What the health of a daemon tells: it is broken with its segment only, and else
degraded exactly for a minute behind every error. -/
structure HealthTold (past : List (EventLoop × LoopEvent)) (s : EventLoop) (now : Nat) : Prop where
  unhealthy : s.d.health now = rtdbdHealthUnhealthy ↔ indurtdbHSelfCheck s.d.h = false
  degraded : s.d.health now = rtdbdHealthDegraded ↔
    indurtdbHSelfCheck s.d.h = true ∧ RecentError past now
  ok : s.d.health now = rtdbdHealthOk ↔
    indurtdbHSelfCheck s.d.h = true ∧ ¬ RecentError past now

/-- `classify` over a run: an error of the last minute, and nothing else, degrades. -/
theorem classify_run {d : Rtdbd} {past : List (EventLoop × LoopEvent)} {s : EventLoop} {now : Nat}
    (hlast : d.stats.lastErrNs = 0) (hrun : EventLoop.Runs (.start d) past s)
    (hclock : Clocked past now) :
    classify s.d.stats now = if RecentError past now then rtdbdHealthDegraded else rtdbdHealthOk := by
  have hnoted := lastErr_run hlast hrun
  have hrecent := recentError_iff hclock
  unfold classify
  cases hfound : past.find? fun p => decide (Errs p) with
  | none =>
      rw [hfound] at hnoted hrecent
      have hnever : ¬ RecentError past now := by
        rw [hrecent]
        rintro ⟨p, hp, -⟩
        cases hp
      have hzero : s.d.stats.lastErrNs = 0 := hnoted
      rw [if_pos hzero, if_neg hnever]
  | some p =>
      have herrs : Errs p := by simpa using List.find?_some hfound
      obtain ⟨t, ht⟩ := clock_of_errs herrs
      have hbound := hclock.bounded t
        (List.mem_filterMap.mpr ⟨p, List.mem_of_find?_eq_some hfound, ht⟩)
      have hlastErr : s.d.stats.lastErrNs = t := by
        rw [hnoted, hfound, Option.bind_some, ht, Option.getD_some]
      rw [hlastErr, if_neg (by omega), if_neg (by omega)]
      have hiff : RecentError past now ↔ now ≤ t + 60 * 10 ^ 9 := by
        rw [hrecent, hfound]
        constructor
        · rintro ⟨q, hq, hle⟩
          obtain rfl := Option.some.inj hq
          rw [ht, Option.getD_some] at hle
          exact hle
        · exact fun hle => ⟨p, rfl, by rw [ht, Option.getD_some]; exact hle⟩
      rcases Nat.lt_or_ge (60 * 10 ^ 9) (now - t) with hlate | hsoon
      · rw [if_pos hlate, if_neg fun hrec => absurd (hiff.mp hrec) (by omega)]
      · rw [if_neg (by omega), if_pos (hiff.mpr (by omega))]

/-- **The health of the daemon.**  Over every run, whatever connections and errors there
are, the daemon reports itself broken only if its segment is, degraded exactly when it has
counted an error in the last minute, and recovers by itself. -/
theorem healthTold {h : IndurtdbH} {policy : IrtPolicy} {conf : RtdbdConf} {logbuf : IrtLogbuf}
    {maxPoints startNs : Nat} {past : List (EventLoop × LoopEvent)} {s : EventLoop} {now : Nat}
    (hrun : EventLoop.Runs (.start (.start h policy conf logbuf maxPoints startNs)) past s)
    (hclock : Clocked past now) : HealthTold past s now := by
  have hclassify := classify_run rfl hrun hclock
  have htable : connTableCheck s.d.conns rtdbdMaxClients = true :=
    (tidy (fun _ => rfl) hrun).checked
  have hhealth : s.d.health now =
      if indurtdbHSelfCheck s.d.h then
        if RecentError past now then rtdbdHealthDegraded else rtdbdHealthOk
      else rtdbdHealthUnhealthy := by
    simp only [Rtdbd.health, hclassify, htable, Bool.not_true, Bool.false_eq_true, and_false,
      if_false]
  cases hcheck : indurtdbHSelfCheck s.d.h with
  | false =>
      rw [hcheck, if_neg Bool.false_ne_true] at hhealth
      constructor <;> rw [hhealth] <;> simp [hcheck]
  | true =>
      rw [hcheck, if_pos rfl] at hhealth
      rcases Decidable.em (RecentError past now) with hrecent | hquiet
      · rw [if_pos hrecent] at hhealth
        constructor <;> rw [hhealth] <;> simp [hcheck, hrecent]
      · rw [if_neg hquiet] at hhealth
        constructor <;> rw [hhealth] <;> simp [hcheck, hquiet]

/-- A client connects and sends twelve bytes that are no header. -/
def misspoken : List LoopEvent := [.accept 0 5, .request 0 (List.replicate 12 0) none operator]

/-- A minute later, to the nanosecond, the daemon is still degraded. -/
theorem healthTold_misspoken :
    HealthTold (Trace.passed EventLoop.after misspoken (.start entered) [])
        (misspoken.foldl EventLoop.after (.start entered)) (60 * 10 ^ 9 + 1) ∧
      (misspoken.foldl EventLoop.after (.start entered)).d.health (60 * 10 ^ 9 + 1) =
        rtdbdHealthDegraded := by
  have hstart : EventLoop.Runs (.start entered) [] (.start entered) := .start
  refine ⟨healthTold (hstart.follow misspoken (by decide +kernel)) ⟨?_, ?_⟩, by decide +kernel⟩
  · decide +kernel
  · decide +kernel

end InduRtdb.Daemon
