/-
  Daemon/Conn.lean --- a connection of the daemon: subscriptions, the state of
  report-by-exception and the queue of outgoing notifications.

  Source: `rtdbd/src/rbe.c`, `rtdbd/src/stats.h`, and `conn_*`, `outq_*` of
  `rtdbd/src/rtdbd.c`.
-/
import InduRtdb.Core.Semantics
import InduRtdb.Daemon.Protocol
import InduRtdb.Lib.Ring

set_option autoImplicit false

namespace InduRtdb.Daemon

open InduRtdb.Core InduRtdb.Lib

/-! ## Counters -/

/-- `rtdbd_stats_t`, with the two clock readings `stats.c` keeps. -/
structure RtdbdStats where
  nWrites : Nat
  nNotifies : Nat
  decodeFail : Nat
  writeRejected : Nat
  writeError : Nat
  notifyDrop : Nat
  notifySendFail : Nat
  startNs : Nat
  lastErrNs : Nat
  deriving DecidableEq

/-- `rtdbd_stats_note_error`. -/
def RtdbdStats.noteError (st : RtdbdStats) (now : Nat) : RtdbdStats := { st with lastErrNs := now }

/-! ## Report by exception -/

/-- `rbe_slot_t`. -/
structure RbeSlot where
  pointId : Nat
  lastReported : Float
  valid : Bool

/-- `rbe_state_t`: the slots by position. -/
structure RbeState where
  slots : Nat → RbeSlot

abbrev rtdbdRbeMax : Nat := rtdbdSubMax

namespace RbeState

/-- `rbe_state_init`. -/
def init : RbeState := ⟨fun _ => ⟨0, doubleOfInt 0, false⟩⟩

/-- Store one slot. -/
def setSlot (s : RbeState) (i : Nat) (slot : RbeSlot) : RbeState :=
  ⟨Function.update s.slots i slot⟩

/-- The first loop of `rbe_decide`, with `n` slots ahead and `idx` the first empty
slot passed. -/
def findLoop (s : RbeState) (pointId : Nat) : Nat → Nat → Option Nat → Option Nat
  | 0, _, idx => idx
  | n + 1, i, idx =>
      if (s.slots i).pointId = pointId then some i
      else
        findLoop s pointId n (i + 1)
          (if idx = none ∧ (s.slots i).pointId = 0 ∧ (s.slots i).valid = false then some i
            else idx)

/-- The slot `rbe_decide` uses for a point. -/
def find (s : RbeState) (pointId : Nat) : Option Nat := s.findLoop pointId rtdbdRbeMax 0 none

/-- The loop of `rbe_clear`. -/
def clearLoop (s : RbeState) (pointId : Nat) : Nat → Nat → RbeState
  | 0, _ => s
  | n + 1, i =>
      if (s.slots i).pointId = pointId then
        s.setSlot i { s.slots i with pointId := 0, valid := false }
      else clearLoop s pointId n (i + 1)

/-- `rbe_clear`. -/
def clear (s : RbeState) (pointId : Nat) : RbeState := s.clearLoop pointId rtdbdRbeMax 0

end RbeState

/-- The comparison of `rbe_decide` between the value last reported and the current
one: the current one is to be reported. -/
def rbeReports (m : IndurtdbMeta) (last value : Float) : Bool :=
  let rbeOn := m.has (indurtdbMetaFlagDeadband ||| indurtdbMetaFlagDeadbandPct)
  let eurOn := m.has indurtdbMetaFlagEur
  if !rbeOn && !eurOn then true
  else
    let exceeded := rbeOn &&
      indurtdbDeadbandExceeded (!m.has indurtdbMetaFlagDeadbandPct)
        (doubleOfFloat (Float32.ofBits m.deadband)) (Float.ofBits m.eurMin)
        (Float.ofBits m.eurMax) last value
    let eurCross := eurOn &&
      indurtdbEurangeLimit true (Float.ofBits m.eurMin) (Float.ofBits m.eurMax) last
        != indurtdbEurangeLimit true (Float.ofBits m.eurMin) (Float.ofBits m.eurMax) value
    exceeded || eurCross

/-- `rbe_decide`: whether to report, and the state it leaves. -/
def rbeDecide (s : RbeState) (pointId : Nat) (value : Float) (m : IndurtdbMeta) : Bool × RbeState :=
  match s.find pointId with
  | none => (true, s)
  | some idx =>
      if (s.slots idx).valid = false then
        (true, s.setSlot idx { pointId := pointId, lastReported := value, valid := true })
      else if rbeReports m (s.slots idx).lastReported value then
        (true, s.setSlot idx { s.slots idx with lastReported := value })
      else (false, s)

/-- What is not reported leaves no trace. -/
theorem rbeDecide_silent {s : RbeState} {pointId : Nat} {value : Float} {m : IndurtdbMeta}
    (h : (rbeDecide s pointId value m).1 = false) : (rbeDecide s pointId value m).2 = s := by
  unfold rbeDecide at h ⊢
  cases hfind : s.find pointId with
  | none => rfl
  | some idx =>
      simp only [hfind] at h ⊢
      split
      next hvalid =>
        rw [if_pos hvalid] at h
        cases h
      next hvalid =>
        rw [if_neg hvalid] at h
        split
        next hreports =>
          rw [if_pos hreports] at h
          cases h
        next => rfl

/-! ## The outgoing queue -/

abbrev rtdbdOutqCap : Nat := 64

/-- The fields `outq`, `outq_head`, `outq_tail`, `outq_count` and `outq_sent`. -/
structure Outq where
  buf : Nat → RtdbdNotify
  head : Nat
  tail : Nat
  count : Nat
  sent : Nat
  head_lt : head < rtdbdOutqCap
  count_le : count ≤ rtdbdOutqCap
  /-- The tail is where the next frame goes. -/
  tail_eq : tail = (head + count) % rtdbdOutqCap
  /-- A frame sent as a whole has left the queue. -/
  sent_lt : sent < rtdbdNotifyFrameLen
  /-- Only a frame in the queue can be sent in part. -/
  sent_zero : count = 0 → sent = 0

namespace Outq

/-- The queue of a new connection. -/
def empty : Outq where
  buf := fun _ => default
  head := 0
  tail := 0
  count := 0
  sent := 0
  head_lt := by decide
  count_le := by decide
  tail_eq := rfl
  sent_lt := by decide
  sent_zero := fun _ => rfl

/-- The queued notifications, oldest first. -/
def toList (q : Outq) : List RtdbdNotify := ringList rtdbdOutqCap q.buf q.head q.count

/-- Reset to no entries, as `conn_discard_outq` does. -/
def discard (q : Outq) : Outq :=
  { empty with buf := q.buf }

/-- Store behind the last entry of a queue with room. -/
def append (q : Outq) (nt : RtdbdNotify) (hroom : q.count < rtdbdOutqCap) : Outq where
  buf := Function.update q.buf q.tail nt
  head := q.head
  tail := (q.tail + 1) % rtdbdOutqCap
  count := q.count + 1
  sent := q.sent
  head_lt := q.head_lt
  count_le := hroom
  tail_eq := by rw [q.tail_eq, Nat.mod_add_mod, Nat.add_assoc]
  sent_lt := q.sent_lt
  sent_zero := fun h => absurd h (Nat.succ_ne_zero _)

/-- Give up the oldest entry. -/
def dropHead (q : Outq) (hne : 0 < q.count) : Outq where
  buf := q.buf
  head := (q.head + 1) % rtdbdOutqCap
  tail := q.tail
  count := q.count - 1
  sent := 0
  head_lt := Nat.mod_lt _ (by decide)
  count_le := Nat.le_trans (Nat.sub_le _ _) q.count_le
  tail_eq := by
    rw [q.tail_eq, Nat.mod_add_mod]
    congr 1
    omega
  sent_lt := by decide
  sent_zero := fun _ => rfl

/-- Record how far the oldest frame has been sent. -/
def setSent (q : Outq) (sent : Nat) (hne : 0 < q.count) (hlt : sent < rtdbdNotifyFrameLen) :
    Outq where
  buf := q.buf
  head := q.head
  tail := q.tail
  count := q.count
  sent := sent
  head_lt := q.head_lt
  count_le := q.count_le
  tail_eq := q.tail_eq
  sent_lt := hlt
  sent_zero := fun h => absurd h (by omega)

@[simp] theorem count_dropHead (q : Outq) (hne : 0 < q.count) :
    (q.dropHead hne).count = q.count - 1 := rfl

theorem pos_of_full (q : Outq) (hfull : q.count = rtdbdOutqCap) : 0 < q.count := by
  rw [hfull]
  decide

/-- Giving up an entry makes room for another. -/
theorem dropHead_room (q : Outq) (hne : 0 < q.count) :
    (q.dropHead hne).count < rtdbdOutqCap :=
  Nat.lt_of_lt_of_le (Nat.sub_lt hne Nat.one_pos) q.count_le

@[simp] theorem toList_empty : empty.toList = [] := rfl

@[simp] theorem length_toList (q : Outq) : q.toList.length = q.count := length_ringList

@[simp] theorem toList_discard (q : Outq) : q.discard.toList = [] := rfl

@[simp] theorem toList_append (q : Outq) (nt : RtdbdNotify) (hroom : q.count < rtdbdOutqCap) :
    (q.append nt hroom).toList = q.toList ++ [nt] := by
  simp only [toList, append, q.tail_eq]
  exact ringList_push nt hroom

@[simp] theorem toList_setSent (q : Outq) (sent : Nat) (hne : 0 < q.count)
    (hlt : sent < rtdbdNotifyFrameLen) : (q.setSent sent hne hlt).toList = q.toList := rfl

/-- The oldest notification and those behind it. -/
theorem toList_eq_cons (q : Outq) (hne : 0 < q.count) :
    q.toList = q.buf q.head :: (q.dropHead hne).toList := by
  obtain ⟨n, hn⟩ : ∃ n, q.count = n + 1 := ⟨q.count - 1, by omega⟩
  have hhead : q.head % rtdbdOutqCap = q.head := Nat.mod_eq_of_lt q.head_lt
  have hcount : (q.dropHead hne).count = n := by simp only [dropHead]; omega
  rw [toList, hn, ringList_succ, hhead, toList, hcount]
  simp only [dropHead, ringList_mod]

end Outq

/-! ## Connections -/

/-- `rtdbd_conn_t`.  The array `subs` with its length `nsubs` is a list. -/
structure RtdbdConn where
  fd : Int
  partition : UInt32
  subs : List Nat
  rbe : RbeState
  outq : Outq

/-- `conn_init`. -/
def connInit : RtdbdConn where
  fd := -1
  partition := 0
  subs := []
  rbe := RbeState.init
  outq := Outq.empty

theorem connInit_closed : ¬ 0 ≤ connInit.fd := by decide

namespace RtdbdConn

/-- `conn_has_sub`. -/
def hasSub (c : RtdbdConn) (pointId : Nat) : Bool := c.subs.contains pointId

/-- `conn_add_sub`: `false` is its error. -/
def addSub (c : RtdbdConn) (pointId : Nat) : Bool × RtdbdConn :=
  if c.hasSub pointId then (true, c)
  else if rtdbdSubMax ≤ c.subs.length then (false, c)
  else (true, { c with subs := c.subs ++ [pointId] })

/-- `conn_del_sub`: the last subscription takes the place of the one removed. -/
def delSub (c : RtdbdConn) (pointId : Nat) : RtdbdConn :=
  let c := { c with rbe := c.rbe.clear pointId }
  match c.subs.findIdx? (· == pointId) with
  | none => c
  | some i => { c with subs := (c.subs.set i (c.subs.getLast?.getD 0)).dropLast }

/-- `conn_discard_outq`. -/
def discardOutq (c : RtdbdConn) (st : RtdbdStats) (now : Nat) : RtdbdConn × RtdbdStats :=
  ({ c with outq := c.outq.discard },
    if 0 < c.outq.count then
      { st with notifyDrop := st.notifyDrop + c.outq.count }.noteError now
    else st)

end RtdbdConn

/-- `outq_push`. -/
def outqPush (q : Outq) (st : RtdbdStats) (nt : RtdbdNotify) (now : Nat) : Outq × RtdbdStats :=
  if hfull : q.count = rtdbdOutqCap then
    let dropped := { st with notifyDrop := st.notifyDrop + 1 }.noteError now
    if 0 < q.sent then (q, dropped)
    else
      ((q.dropHead (q.pos_of_full hfull)).append nt (q.dropHead_room _),
        { dropped with nNotifies := dropped.nNotifies + 1 })
  else
    (q.append nt (lt_of_le_of_ne q.count_le hfull), { st with nNotifies := st.nNotifies + 1 })

/-- A notification goes behind those of the queue, and the oldest one gives way in a
full queue; but not while that one is on its way. -/
theorem toList_outqPush (q : Outq) (st : RtdbdStats) (nt : RtdbdNotify) (now : Nat) :
    (outqPush q st nt now).1.toList =
      if q.count = rtdbdOutqCap ∧ 0 < q.sent then q.toList
      else lastOf rtdbdOutqCap (q.toList ++ [nt]) := by
  have hle := q.count_le
  unfold outqPush
  split
  next hfull =>
    dsimp only
    split
    next hsent => rw [if_pos ⟨hfull, hsent⟩]
    next hsent =>
      have hlen : (q.toList ++ [nt]).length - rtdbdOutqCap = 1 := by
        rw [List.length_append, Outq.length_toList, hfull, List.length_singleton,
          Nat.add_sub_cancel_left]
      rw [if_neg fun h => hsent h.2, Outq.toList_append, lastOf, hlen,
        q.toList_eq_cons (q.pos_of_full hfull), List.cons_append, List.drop_one, List.tail_cons]
  next hroom =>
    have hlen : (q.toList ++ [nt]).length ≤ rtdbdOutqCap := by
      rw [List.length_append, Outq.length_toList, List.length_singleton]
      omega
    rw [if_neg fun h => hroom h.1, Outq.toList_append, lastOf_of_length_le hlen]

/-- A push to a full queue is counted as a drop. -/
theorem notifyDrop_outqPush (q : Outq) (st : RtdbdStats) (nt : RtdbdNotify) (now : Nat) :
    (outqPush q st nt now).2.notifyDrop =
      st.notifyDrop + if q.count = rtdbdOutqCap then 1 else 0 := by
  unfold outqPush
  split
  next =>
    dsimp only
    split
    · rfl
    · rfl
  next => rfl

/-- A push does not touch what has been sent of the oldest frame. -/
theorem take_head_outqPush (q : Outq) (st : RtdbdStats) (nt : RtdbdNotify) (now : Nat) :
    (((outqPush q st nt now).1.buf (outqPush q st nt now).1.head).frame.take
        (outqPush q st nt now).1.sent) = (q.buf q.head).frame.take q.sent := by
  unfold outqPush
  split
  next hfull =>
    dsimp only
    split
    next => rfl
    next hsent =>
      have hzero : q.sent = 0 := by omega
      rw [hzero, List.take_zero]
      rfl
  next hroom =>
    rcases Nat.eq_zero_or_pos q.count with hempty | hpos
    · have hzero : q.sent = 0 := q.sent_zero hempty
      simp only [Outq.append, hzero, List.take_zero]
    · have hle := q.count_le
      have hplace : q.head ≠ q.tail := by
        have hne : (q.head + 0) % rtdbdOutqCap ≠ (q.head + q.count) % rtdbdOutqCap :=
          add_mod_ne q.head hpos (Nat.lt_of_le_of_ne hle hroom)
        rw [Nat.add_zero, Nat.mod_eq_of_lt q.head_lt] at hne
        rw [q.tail_eq]
        exact hne
      simp only [Outq.append, Function.update_of_ne hplace]

/-- What one `send` of `outq_flush` reports. -/
inductive SendResult where
  /-- so many bytes were taken, of those asked for -/
  | took (n : Nat)
  | eintr
  | eagain
  | failed
  deriving DecidableEq

/-- The loop of `outq_flush` while its sends report `results`, the last of them
followed by `EAGAIN`: the bytes sent, the queue, and whether no send failed. -/
def outqFlushLoop : List SendResult → Outq → List UInt8 × Outq × Bool
  | [], q => ([], q, true)
  | result :: results, q =>
      if hne : 0 < q.count then
        match result with
        | .eintr => outqFlushLoop results q
        | .eagain => ([], q, true)
        | .failed => ([], q, false)
        | .took n =>
            let n := min n (rtdbdNotifyFrameLen - q.sent)
            let bytes := ((q.buf q.head).frame.drop q.sent).take n
            if n = 0 then ([], q, true)
            else if hlt : q.sent + n < rtdbdNotifyFrameLen then
              (bytes, q.setSent (q.sent + n) hne hlt, true)
            else
              let flushed := outqFlushLoop results (q.dropHead hne)
              (bytes ++ flushed.1, flushed.2)
      else ([], q, true)

/-- A flush delivers whole frames from the head of the queue: the part of the oldest
frame sent before and the bytes sent now are those frames and the part of the next one
that the queue remembers. -/
theorem outqFlushLoop_frames (results : List SendResult) :
    ∀ q : Outq, ∃ done, q.toList = done ++ (outqFlushLoop results q).2.1.toList ∧
      (q.buf q.head).frame.take q.sent ++ (outqFlushLoop results q).1 =
        done.flatMap RtdbdNotify.frame ++
          ((outqFlushLoop results q).2.1.buf (outqFlushLoop results q).2.1.head).frame.take
            (outqFlushLoop results q).2.1.sent := by
  induction results with
  | nil => exact fun q => ⟨[], rfl, by simp [outqFlushLoop]⟩
  | cons result results ih =>
      intro q
      unfold outqFlushLoop
      split
      next hne =>
        cases result with
        | eintr => exact ih q
        | eagain => exact ⟨[], rfl, by simp⟩
        | failed => exact ⟨[], rfl, by simp⟩
        | took n =>
            dsimp only
            split
            next => exact ⟨[], rfl, by simp⟩
            next hpos =>
              generalize hm : min n (rtdbdNotifyFrameLen - q.sent) = m at hpos ⊢
              have htake : (q.buf q.head).frame.take q.sent ++
                  ((q.buf q.head).frame.drop q.sent).take m =
                    (q.buf q.head).frame.take (q.sent + m) := List.take_add.symm
              split
              next hlt => exact ⟨[], rfl, htake⟩
              next hwhole =>
                have hlen : (q.buf q.head).frame.length ≤ q.sent + m := by
                  rw [RtdbdNotify.length_frame]
                  omega
                obtain ⟨done, hlist, hbytes⟩ := ih (q.dropHead hne)
                refine ⟨q.buf q.head :: done, ?_, ?_⟩
                · rw [q.toList_eq_cons hne, hlist, List.cons_append]
                · rw [← List.append_assoc, htake, List.take_of_length_le hlen, List.flatMap_cons,
                    List.append_assoc, ← hbytes]
                  rfl
      next => exact ⟨[], rfl, by simp⟩

/-- `outq_flush`: the bytes sent, the connection, the counters, and `false` when the
connection is lost. -/
def outqFlush (results : List SendResult) (c : RtdbdConn) (st : RtdbdStats) (now : Nat) :
    List UInt8 × RtdbdConn × RtdbdStats × Bool :=
  match outqFlushLoop results c.outq with
  | (bytes, q, true) => (bytes, { c with outq := q }, st, true)
  | (bytes, q, false) =>
      let discarded := RtdbdConn.discardOutq { c with outq := q } st now
      (bytes, discarded.1,
        { discarded.2 with notifySendFail := discarded.2.notifySendFail + 1 }.noteError now, false)

end InduRtdb.Daemon
