/-
  Daemon/Loop.lean --- the event loop of the daemon.

  Source: `main` of `rtdbd/src/rtdbd.c`.

  The loop accepts connections, flushes the queue of a connection that can be
  written to, and handles a request of one that can be read from; which of them
  comes next is left open.  The state carries the bytes sent on each connection
  since it was accepted.
-/
import InduRtdb.Daemon.Effects
import InduRtdb.Lib.Run

set_option autoImplicit false

namespace InduRtdb.Daemon

open InduRtdb.Core InduRtdb.Api InduRtdb.Lib

/-- The daemon and, by place in the connection table, what has been sent. -/
structure EventLoop where
  d : Rtdbd
  wire : Nat → List UInt8

/-- What the loop does next.  A request finds `input` on its connection, and `send`
takes `room` more bytes there before it fails, if it does. -/
inductive LoopEvent where
  | accept (slot : Nat) (fd : Int)
  | request (slot : Nat) (input : List UInt8) (room : Option Nat) (env : Env)
  | flush (slot : Nat) (results : List SendResult) (now : Nat)

/-- The connection in a place is closed and the place is free again. -/
def closeConn (d : Rtdbd) (slot now : Nat) : Rtdbd :=
  { d with
    conns := Function.update d.conns slot connInit
    stats := ((d.conns slot).discardOutq d.stats now).2 }

namespace EventLoop

/-- The loop as it is entered. -/
def start (d : Rtdbd) : EventLoop := ⟨d, fun _ => []⟩

/-- The connection in a place is open. -/
def Live (s : EventLoop) (slot : Nat) : Prop := slot < rtdbdMaxClients ∧ 0 ≤ (s.d.conns slot).fd

/-- The loop can do this next: a new connection takes the first free place. -/
def Enabled (s : EventLoop) : LoopEvent → Prop
  | .accept slot fd =>
      slot < rtdbdMaxClients ∧ (s.d.conns slot).fd < 0 ∧
        (∀ i, i < slot → 0 ≤ (s.d.conns i).fd) ∧ 0 ≤ fd
  | .request slot _ _ _ => s.Live slot
  | .flush slot _ _ => s.Live slot ∧ 0 < (s.d.conns slot).outq.count

instance (s : EventLoop) (slot : Nat) : Decidable (s.Live slot) :=
  inferInstanceAs (Decidable (_ ∧ _))

instance (s : EventLoop) : ∀ e, Decidable (s.Enabled e)
  | .accept slot fd => inferInstanceAs (Decidable (slot < rtdbdMaxClients ∧
      (s.d.conns slot).fd < 0 ∧ (∀ i, i < slot → 0 ≤ (s.d.conns i).fd) ∧ 0 ≤ fd))
  | .request slot _ _ _ => inferInstanceAs (Decidable (s.Live slot))
  | .flush slot _ _ => inferInstanceAs (Decidable (s.Live slot ∧ 0 < (s.d.conns slot).outq.count))

/-- The request of an event, handled. -/
def handled (s : EventLoop) (slot : Nat) (input : List UInt8) (room : Option Nat) (env : Env) :
    Handled :=
  handleRequest s.d slot ⟨input, room, s.wire slot⟩ env

/-- What the event makes of the loop. -/
def after (s : EventLoop) : LoopEvent → EventLoop
  | .accept slot fd =>
      { d := { s.d with conns := Function.update s.d.conns slot { connInit with fd := fd } }
        wire := Function.update s.wire slot [] }
  | .request slot input room env =>
      let done := s.handled slot input room env
      { d := if done.fate = .keep then done.d else closeConn done.d slot env.now
        wire := Function.update s.wire slot done.sock.output }
  | .flush slot results now =>
      let flushed := outqFlush results (s.d.conns slot) s.d.stats now
      { d :=
          { s.d with
            conns := Function.update s.d.conns slot
              (if flushed.2.2.2 then flushed.2.1 else connInit)
            stats := flushed.2.2.1 }
        wire := Function.update s.wire slot (s.wire slot ++ flushed.1) }

/-- A run of the loop in which every step meets a condition. -/
abbrev Guarded (met : EventLoop → LoopEvent → Prop) (init : EventLoop) :
    List (EventLoop × LoopEvent) → EventLoop → Prop :=
  Trace (fun s e => s.Enabled e ∧ met s e) after init

/-- A run of the loop. -/
abbrev Runs (init : EventLoop) : List (EventLoop × LoopEvent) → EventLoop → Prop :=
  Trace Enabled after init

end EventLoop

/-! ## What the connections go through -/

/-- A connection goes through a request: its queue is as it was, or one notification
has been pushed. -/
structure ConnKept (c c' : RtdbdConn) : Prop where
  fd : c'.fd = c.fd
  outq : c'.outq = c.outq ∨ ∃ st nt now, c'.outq = (outqPush c.outq st nt now).1

namespace ConnKept

theorem refl (c : RtdbdConn) : ConnKept c c := ⟨rfl, .inl rfl⟩

/-- A connection of which only other fields change. -/
theorem of_eq {c c' : RtdbdConn} (hfd : c'.fd = c.fd) (houtq : c'.outq = c.outq) : ConnKept c c' :=
  ⟨hfd, .inl houtq⟩

theorem trans_eq {c c' c'' : RtdbdConn} (hfd : c'.fd = c.fd) (houtq : c'.outq = c.outq)
    (h : ConnKept c' c'') : ConnKept c c'' := by
  obtain ⟨hfd', houtq'⟩ := h
  rw [houtq] at houtq'
  exact ⟨hfd'.trans hfd, houtq'⟩

end ConnKept

theorem offer_kept (nt : RtdbdNotify) (m : IndurtdbMeta) (now : Nat) (c : RtdbdConn)
    (st : RtdbdStats) : ConnKept c (offer nt m now c st).1 := by
  unfold offer
  split
  · exact .refl c
  · split
    · exact .refl c
    · split
      · exact .of_eq rfl rfl
      · exact ⟨rfl, .inr ⟨st, nt, now, rfl⟩⟩

/-- The connection part of an offer does not depend on the counters. -/
theorem offer_conn_eq (nt : RtdbdNotify) (m : IndurtdbMeta) (now : Nat) (c : RtdbdConn)
    (st st' : RtdbdStats) : (offer nt m now c st).1 = (offer nt m now c st').1 := by
  have hpush : (outqPush c.outq st nt now).1 = (outqPush c.outq st' nt now).1 := by
    unfold outqPush
    split
    · dsimp only
      split <;> rfl
    · rfl
  unfold offer
  split
  · rfl
  · split
    · rfl
    · split
      · rfl
      · simp only [hpush]

/-- Every connection of the loop is offered the notification once. -/
theorem offerLoop_conns (nt : RtdbdNotify) (m : IndurtdbMeta) (now : Nat) (st' : RtdbdStats)
    (n : Nat) :
    ∀ i conns st j, (offerLoop nt m now n i conns st).1 j =
      if i ≤ j ∧ j < i + n then (offer nt m now (conns j) st').1 else conns j := by
  induction n with
  | zero =>
      intro i conns st j
      rw [if_neg (by omega)]
      rfl
  | succ n ih =>
      intro i conns st j
      rw [offerLoop, ih]
      rcases Nat.lt_trichotomy j i with hlt | rfl | hgt
      · rw [if_neg (by omega), if_neg (by omega), Function.update_of_ne (by omega)]
      · rw [if_neg (by omega), if_pos (by omega), Function.update_self,
          offer_conn_eq nt m now (conns j) st st']
      · rw [Function.update_of_ne (by omega)]
        rcases Nat.lt_or_ge j (i + 1 + n) with hin | hout
        · rw [if_pos (by omega), if_pos (by omega)]
        · rw [if_neg (by omega), if_neg (by omega)]

theorem notifyBroadcast_kept (d : Rtdbd) (w : RtdbdWriteReq) (m : IndurtdbMeta) (now j : Nat) :
    ConnKept (d.conns j) ((notifyBroadcast d w m now).conns j) := by
  have hconn : (notifyBroadcast d w m now).conns j = _ :=
    offerLoop_conns (notifyOf d.h w) m now d.stats rtdbdMaxClients 0 d.conns d.stats j
  rw [hconn]
  split
  · exact offer_kept _ _ _ _ _
  · exact .refl _

@[simp] theorem setConn_conns (cx : RtdbdCtx) (c : RtdbdConn) :
    (cx.setConn c).d.conns = Function.update cx.d.conns cx.slot c := rfl

/-- A change of one connection that keeps its descriptor and its queue. -/
theorem setConn_kept (cx : RtdbdCtx) {c : RtdbdConn} (hfd : c.fd = cx.conn.fd)
    (houtq : c.outq = cx.conn.outq) (j : Nat) :
    ((cx.setConn c).d.conns j).fd = (cx.d.conns j).fd ∧
      ((cx.setConn c).d.conns j).outq = (cx.d.conns j).outq := by
  rcases Decidable.em (j = cx.slot) with rfl | hj
  · rw [setConn_conns, Function.update_self]
    exact ⟨hfd, houtq⟩
  · rw [setConn_conns, Function.update_of_ne hj]
    exact ⟨rfl, rfl⟩

@[simp] theorem conns_logged (cx : RtdbdCtx) (text : Option (List UInt8)) :
    (cx.logged text).d.conns = cx.d.conns := by
  cases text with
  | none => rfl
  | some text => rfl

@[simp] theorem stats_logged (cx : RtdbdCtx) (text : Option (List UInt8)) :
    (cx.logged text).d.stats = cx.d.stats := by
  cases text with
  | none => rfl
  | some text => rfl

/-- Before the broadcast, a request leaves the queues alone. -/
theorem Decided.conns_kept {cx : RtdbdCtx} {reply : Reply} (decided : Decided cx reply) (j : Nat) :
    (reply.d.conns j).fd = (cx.d.conns j).fd ∧ (reply.d.conns j).outq = (cx.d.conns j).outq := by
  cases decided with
  | subscribed =>
      refine setConn_kept cx ?_ ?_ j
      · rfl
      · rfl
  | selected =>
      refine setConn_kept cx ?_ ?_ j
      · rfl
      · rfl
  | changed =>
      rw [conns_logged]
      exact ⟨rfl, rfl⟩
  | _ => exact ⟨rfl, rfl⟩

/-- What is announced behind the response is a broadcast, or nothing. -/
theorem Decided.announce_kept {cx : RtdbdCtx} {reply : Reply} (decided : Decided cx reply)
    (d : Rtdbd) (j : Nat) : ConnKept (d.conns j) ((reply.announce d).conns j) := by
  cases decided with
  | wrote => exact notifyBroadcast_kept _ _ _ _ _
  | _ => exact .refl _

theorem Settles.conns_kept {cx : RtdbdCtx} {r : Fate × RtdbdCtx} (h : Settles cx r) (j : Nat) :
    ConnKept (cx.d.conns j) (r.2.d.conns j) := by
  obtain ⟨reply, decided, rfl⟩ := h
  obtain ⟨hfd, houtq⟩ := decided.conns_kept j
  obtain ⟨k, room, -, -, hd⟩ := reply.send_eq cx
  rw [hd]
  split
  · exact .trans_eq hfd houtq (decided.announce_kept _ j)
  · exact .of_eq hfd houtq

/-- A request pushes at most one notification on a queue. -/
theorem handleRequest_conns (d : Rtdbd) (slot : Nat) (sock : Socket) (env : Env) (j : Nat) :
    ConnKept (d.conns j) ((handleRequest d slot sock env).d.conns j) := by
  rcases Decidable.em (HeaderArrives sock.input) with harrives | hnot
  · obtain ⟨reply, decided, hhandled⟩ := @handleRequest_of_header d slot sock env harrives
    rw [hhandled]
    exact Settles.conns_kept ⟨reply, decided, rfl⟩ j
  · obtain ⟨st, input, -, hhandled⟩ := @handleRequest_of_not_header d slot sock env hnot
    rw [hhandled]
    exact .refl _

/-! ## What a step changes -/

/-- The place in the connection table an event is about. -/
def LoopEvent.slot : LoopEvent → Nat
  | .accept slot _ => slot
  | .request slot _ _ _ => slot
  | .flush slot _ _ => slot

namespace EventLoop

variable {s : EventLoop}

@[simp] theorem after_accept_conn (slot : Nat) (fd : Int) :
    (s.after (.accept slot fd)).d.conns slot = { connInit with fd := fd } := by
  simp [after]

@[simp] theorem after_accept_wire (slot : Nat) (fd : Int) :
    (s.after (.accept slot fd)).wire slot = [] := by
  simp [after]

@[simp] theorem after_request_wire (slot : Nat) (input : List UInt8) (room : Option Nat)
    (env : Env) : (s.after (.request slot input room env)).wire slot =
      (s.handled slot input room env).sock.output := by
  simp [after]

/-- A request that ends its connection frees the place. -/
theorem after_request_close {slot : Nat} {input : List UInt8} {room : Option Nat} {env : Env}
    (hclose : (s.handled slot input room env).fate ≠ .keep) :
    (s.after (.request slot input room env)).d.conns slot = connInit := by
  simp [after, hclose, closeConn]

theorem after_request_keep {slot : Nat} {input : List UInt8} {room : Option Nat} {env : Env}
    (hkeep : (s.handled slot input room env).fate = .keep) :
    (s.after (.request slot input room env)).d = (s.handled slot input room env).d := by
  simp [after, hkeep]

/-- The other streams stay as they are. -/
theorem after_wire_of_ne {e : LoopEvent} {j : Nat} (hne : j ≠ e.slot) :
    (s.after e).wire j = s.wire j := by
  cases e with
  | accept slot fd => exact Function.update_of_ne hne _ s.wire
  | request slot input room env => exact Function.update_of_ne hne _ s.wire
  | flush slot results now => exact Function.update_of_ne hne _ s.wire

/-- The other connections get at most a notification. -/
theorem after_conn_of_ne {e : LoopEvent} {j : Nat} (hne : j ≠ e.slot) :
    ConnKept (s.d.conns j) ((s.after e).d.conns j) := by
  cases e with
  | accept slot fd => exact Function.update_of_ne hne _ s.d.conns ▸ .refl _
  | request slot input room env =>
      have hkept := handleRequest_conns s.d slot ⟨input, room, s.wire slot⟩ env j
      have hne : j ≠ slot := hne
      unfold after
      dsimp only
      split
      · exact hkept
      · unfold closeConn
        dsimp only
        rw [Function.update_of_ne hne]
        exact hkept
  | flush slot results now => exact Function.update_of_ne hne _ s.d.conns ▸ .refl _

/-- A flush sends what the loop of `outq_flush` sends; a connection that is lost is
closed. -/
theorem after_flush (slot : Nat) (results : List SendResult) (now : Nat) :
    (s.after (.flush slot results now)).wire slot =
        s.wire slot ++ (outqFlushLoop results (s.d.conns slot).outq).1 ∧
      (s.after (.flush slot results now)).d.conns slot =
        if (outqFlushLoop results (s.d.conns slot).outq).2.2 then
          { s.d.conns slot with outq := (outqFlushLoop results (s.d.conns slot).outq).2.1 }
        else connInit := by
  unfold after outqFlush
  dsimp only
  rw [Function.update_self, Function.update_self]
  split
  next bytes q hloop => simp [hloop]
  next bytes q hloop => simp [hloop]

end EventLoop

/-! ## One operator -/

/-- A peer with uid 0. -/
def operator : Env := ⟨some (1, 0), 1, 1⟩

/-- The daemon before its loop, where uid 0 may change the points up to 10. -/
def entered : Rtdbd := Rtdbd.fresh 16 4 1 ⟨[⟨0, 0, 0, 10, true⟩]⟩

theorem entered_closed (slot : Nat) : (entered.conns slot).fd < 0 := Int.not_le.mp connInit_closed

/-- The request of a client that subscribes to point 0. -/
def subscribeZero : List UInt8 := hdrBytes rtdbdOpSubscribe 4 ++ le32 0

/-- The request of a client that writes 7 to point 0. -/
def writeZero : List UInt8 :=
  hdrBytes rtdbdOpWrite 24 ++ (le32 0 ++ [1, 0, 0, 0] ++ le64 7 ++ le64 0)

end InduRtdb.Daemon
