/-
  Daemon/FrameIntegrity.lean --- what a client finds in the stream it is sent.

  Source: `send_all`, `outq_push`, `outq_flush`, `op_*` and `main` of
  `rtdbd/src/rtdbd.c`.

  Notifications go through the queue, which remembers how far its oldest frame has
  been sent; responses go to the socket at once.  A response sent while a
  notification is on its way in part ends up inside it.
-/
import InduRtdb.Daemon.Framing
import InduRtdb.Daemon.Loop

set_option autoImplicit false

namespace InduRtdb.Daemon

open InduRtdb.Core InduRtdb.Api InduRtdb.Lib

/-! ## Streams of frames -/

/-- What the daemon sends: a response or a notification. -/
inductive Frame where
  | response (status : Nat) (payload : List UInt8) (short : payload.length < 2 ^ 32)
  | notify (nt : RtdbdNotify)

/-- The bytes of a frame. -/
def Frame.bytes : Frame → List UInt8
  | .response status payload _ => frameBytes status payload
  | .notify nt => nt.frame

/-- Whole frames, each in one piece, and at most the beginning of one more. -/
def WellFramed (sent : List UInt8) : Prop :=
  ∃ (frames : List Frame) (next : Frame) (k : Nat),
    sent = frames.flatMap Frame.bytes ++ next.bytes.take k

theorem WellFramed.nil : WellFramed [] := ⟨[], .notify default, 0, rfl⟩

/-- What has been sent at any earlier moment is well framed too. -/
theorem WellFramed.earlier {sent before : List UInt8} (h : WellFramed sent)
    (hbegins : before <+: sent) : WellFramed before := by
  obtain ⟨frames, next, k, rfl⟩ := h
  induction frames generalizing before with
  | nil =>
      rw [List.flatMap_nil, List.nil_append] at hbegins
      refine ⟨[], next, before.length, ?_⟩
      exact List.prefix_iff_eq_take.mp (hbegins.trans (List.take_prefix k _))
  | cons frame frames ih =>
      rw [List.flatMap_cons, List.append_assoc] at hbegins
      have hframe := List.prefix_append frame.bytes
        (frames.flatMap Frame.bytes ++ next.bytes.take k)
      rcases Nat.le_total before.length frame.bytes.length with hshort | hlong
      · refine ⟨[], frame, before.length, ?_⟩
        exact List.prefix_iff_eq_take.mp
          (List.prefix_of_prefix_length_le hbegins hframe hshort)
      · obtain ⟨rest, rfl⟩ := List.prefix_of_prefix_length_le hframe hbegins hlong
        obtain ⟨frames', next', k', hrest⟩ := ih ((List.prefix_append_right_inj _).mp hbegins)
        exact ⟨frame :: frames', next', k', by
          rw [hrest, List.flatMap_cons, List.append_assoc]⟩

/-- Every frame is a header and the payload it announces. -/
theorem Frame.bytes_eq (f : Frame) :
    ∃ code payload, payload.length < 2 ^ 32 ∧ f.bytes = frameBytes code payload := by
  cases f with
  | response status payload short => exact ⟨status, payload, short, rfl⟩
  | notify nt =>
      refine ⟨rtdbdOpNotify, nt.toBytes, ?_, rfl⟩
      rw [nt.length_toBytes]
      decide

/-- The length a frame announces is read back from its header. -/
theorem fieldAt_frameBytes (code : Nat) {payload : List UInt8} (rest : List UInt8)
    (hshort : payload.length < 2 ^ 32) :
    fieldAt (frameBytes code payload ++ rest) 8 4 = payload.length := by
  have hfield : ((frameBytes code payload ++ rest).drop 8).take 4 = le32 payload.length := rfl
  rw [fieldAt, hfield, ofLe_le32 hshort]

/-- Behind a frame of a well-framed stream, the stream is well framed. -/
theorem WellFramed.rest {sent : List UInt8} (h : WellFramed sent) (hlong : 12 ≤ sent.length) :
    WellFramed (sent.drop (12 + fieldAt sent 8 4)) := by
  obtain ⟨frames, next, k, rfl⟩ := h
  cases frames with
  | nil =>
      obtain ⟨code, payload, hshort, hnext⟩ := next.bytes_eq
      rw [List.flatMap_nil, List.nil_append, List.length_take] at hlong
      have hfield : fieldAt (next.bytes.take k) 8 4 = payload.length := by
        rw [← fieldAt_frameBytes code [] hshort, List.append_nil, ← hnext,
          fieldAt, fieldAt, List.drop_take, List.take_take, Nat.min_eq_left (by omega)]
      rw [List.flatMap_nil, List.nil_append, hfield, List.drop_eq_nil_of_le]
      · exact .nil
      · rw [List.length_take, hnext, length_frameBytes]
        exact Nat.min_le_right _ _
  | cons frame frames =>
      obtain ⟨code, payload, hshort, hframe⟩ := frame.bytes_eq
      rw [List.flatMap_cons, List.append_assoc, hframe, fieldAt_frameBytes code _ hshort,
        ← length_frameBytes code payload, List.drop_left']
      · exact ⟨frames, next, k, rfl⟩
      · rfl

/-- The beginning of a frame begins like the magic number. -/
theorem take_frameBytes (code : Nat) (payload rest : List UInt8) :
    (frameBytes code payload ++ rest).take 4 = le32 rtdbdMagic := rfl

/-- A well-framed stream of four bytes or more begins with the magic number. -/
theorem WellFramed.magic {sent : List UInt8} (h : WellFramed sent) (hlong : 4 ≤ sent.length) :
    sent.take 4 = le32 rtdbdMagic := by
  obtain ⟨frames, next, k, rfl⟩ := h
  cases frames with
  | nil =>
      obtain ⟨code, payload, -, hnext⟩ := next.bytes_eq
      rw [List.flatMap_nil, List.nil_append, List.length_take] at hlong
      rw [List.flatMap_nil, List.nil_append, List.take_take, Nat.min_eq_left (by omega), hnext,
        ← take_frameBytes code payload [], List.append_nil]
  | cons frame frames =>
      obtain ⟨code, payload, -, hframe⟩ := frame.bytes_eq
      rw [List.flatMap_cons, List.append_assoc, hframe, take_frameBytes]

/-! ## The stream of one connection -/

/-- What has been sent fits the queue: whole frames, and as much of the oldest queued
notification as the queue remembers. -/
def InProgress (q : Outq) (sent : List UInt8) : Prop :=
  ∃ frames : List Frame, sent = frames.flatMap Frame.bytes ++ (q.buf q.head).frame.take q.sent

theorem InProgress.wellFramed {q : Outq} {sent : List UInt8} (h : InProgress q sent) :
    WellFramed sent := by
  obtain ⟨frames, hsent⟩ := h
  exact ⟨frames, .notify (q.buf q.head), q.sent, hsent⟩

theorem InProgress.nil (q : Outq) (hsent : q.sent = 0) : InProgress q [] :=
  ⟨[], by rw [hsent, List.take_zero]; rfl⟩

/-- With nothing of the queue on its way, a response keeps the stream in order. -/
theorem InProgress.response {q : Outq} {sent : List UInt8} (h : InProgress q sent)
    (hzero : q.sent = 0) {status : Nat} {payload : List UInt8} (hshort : payload.length < 2 ^ 32) :
    InProgress q (sent ++ frameBytes status payload) := by
  obtain ⟨frames, rfl⟩ := h
  refine ⟨frames ++ [.response status payload hshort], ?_⟩
  rw [hzero, List.take_zero, List.append_nil, List.append_nil, List.flatMap_append]
  simp [Frame.bytes]

/-- Part of a response is the beginning of a frame. -/
theorem InProgress.responsePart {q : Outq} {sent : List UInt8} (h : InProgress q sent)
    (hzero : q.sent = 0) {status : Nat} {payload : List UInt8} (hshort : payload.length < 2 ^ 32)
    (k : Nat) : WellFramed (sent ++ (frameBytes status payload).take k) := by
  obtain ⟨frames, rfl⟩ := h
  refine ⟨frames, .response status payload hshort, k, ?_⟩
  rw [hzero, List.take_zero, List.append_nil]
  rfl

/-- Pushing a notification does not touch the frame on its way. -/
theorem InProgress.push {q : Outq} {sent : List UInt8} (h : InProgress q sent) (st : RtdbdStats)
    (nt : RtdbdNotify) (now : Nat) : InProgress (outqPush q st nt now).1 sent := by
  obtain ⟨frames, hsent⟩ := h
  refine ⟨frames, ?_⟩
  rw [take_head_outqPush]
  exact hsent

theorem InProgress.of_kept {c c' : RtdbdConn} {sent : List UInt8} (h : InProgress c.outq sent)
    (hkept : ConnKept c c') : InProgress c'.outq sent := by
  rcases hkept.outq with heq | ⟨st, nt, now, heq⟩
  · rw [heq]
    exact h
  · rw [heq]
    exact h.push st nt now

/-- A flush continues the frame on its way, and goes on with whole frames. -/
theorem InProgress.flush {q : Outq} {sent : List UInt8} (h : InProgress q sent)
    (results : List SendResult) :
    InProgress (outqFlushLoop results q).2.1 (sent ++ (outqFlushLoop results q).1) := by
  obtain ⟨frames, rfl⟩ := h
  obtain ⟨done, -, hbytes⟩ := outqFlushLoop_frames results q
  have hdone : done.flatMap RtdbdNotify.frame = (done.map Frame.notify).flatMap Frame.bytes := by
    rw [List.flatMap_map]
    rfl
  refine ⟨frames ++ done.map .notify, ?_⟩
  rw [List.append_assoc, hbytes, hdone, List.flatMap_append, List.append_assoc]

/-! ## What a request sends -/

/-- The header of a request arrives and is recognised, and `send` takes something. -/
def Responds (input : List UInt8) (room : Option Nat) : Prop :=
  HeaderArrives input ∧ room ≠ some 0

instance (input : List UInt8) (room : Option Nat) : Decidable (Responds input room) :=
  inferInstanceAs (Decidable (_ ∧ _))

theorem respond_of_no_room (cx : RtdbdCtx) (hroom : cx.sock.room = some 0) (status : Nat)
    (payload : List UInt8) : cx.respond status payload = (.close, cx) := by
  have hsend : cx.sock.sendAll (hdrBytes status payload.length) = (false, cx.sock) := by
    obtain ⟨d, slot, ⟨input, room, output⟩, req, env⟩ := cx
    obtain rfl : room = some 0 := hroom
    simp [Socket.sendAll]
  simp only [RtdbdCtx.respond, hsend]

/-- Nothing can be sent where `send` takes nothing. -/
theorem Reply.send_of_no_room (reply : Reply) (cx : RtdbdCtx) (hroom : cx.sock.room = some 0) :
    (reply.send cx).1 = .close ∧ (reply.send cx).2.sock.output = cx.sock.output := by
  have hrespond := respond_of_no_room
    { cx with d := reply.d, sock := { cx.sock with input := reply.input } } hroom
    reply.status reply.payload
  unfold Reply.send
  simp only [hrespond]
  split
  · exact ⟨rfl, rfl⟩
  · exact ⟨rfl, rfl⟩

/-- A request sends one response, or the beginning of one, and all of it if the
connection stays. -/
theorem handleRequest_output (d : Rtdbd) (slot : Nat) (sock : Socket) (env : Env) :
    ∃ status payload k, payload.length < 2 ^ 32 ∧
      (handleRequest d slot sock env).sock.output =
        sock.output ++ (frameBytes status payload).take k ∧
      ((handleRequest d slot sock env).fate = .keep →
        k = (frameBytes status payload).length) ∧
      (¬ Responds sock.input sock.room → k = 0) := by
  rcases Decidable.em (HeaderArrives sock.input) with harrives | hnot
  · obtain ⟨reply, decided, hhandled⟩ := @handleRequest_of_header d slot sock env harrives
    rw [hhandled]
    rcases Decidable.em (sock.room = some 0) with hroom | hroom
    · obtain ⟨hclose, hout⟩ := reply.send_of_no_room (.ofRequest d slot sock env) hroom
      refine ⟨0, [], 0, by decide, ?_, fun hkeep => ?_, fun _ => rfl⟩
      · rw [List.take_zero, List.append_nil]
        exact hout
      · cases hclose.symm.trans hkeep
    · obtain ⟨status, payload, k, hlen, hout, hkeep⟩ := (Settles.answers ⟨reply, decided, rfl⟩).sends
      exact ⟨status, payload, k, hlen, hout, hkeep, fun hnot => absurd ⟨harrives, hroom⟩ hnot⟩
  · obtain ⟨st, input, -, hhandled⟩ := @handleRequest_of_not_header d slot sock env hnot
    rw [hhandled]
    refine ⟨0, [], 0, by decide, ?_, fun hkeep => ?_, fun _ => rfl⟩
    · rw [List.take_zero, List.append_nil]
    · cases hkeep

/-! ## Runs of the loop -/

/-- What holds of every place in the connection table: an open connection has been
sent what its queue remembers, a closed one what is in order as far as it goes. -/
def InOrder (s : EventLoop) (slot : Nat) : Prop :=
  (0 ≤ (s.d.conns slot).fd → InProgress (s.d.conns slot).outq (s.wire slot)) ∧
    WellFramed (s.wire slot)

/-- A response is sent only when no notification is on its way in part. -/
def ResponsesApart (s : EventLoop) : LoopEvent → Prop
  | .request slot input room _ => Responds input room → (s.d.conns slot).outq.sent = 0
  | _ => True

instance (s : EventLoop) : ∀ e, Decidable (ResponsesApart s e)
  | .request slot input room _ =>
      inferInstanceAs (Decidable (Responds input room → (s.d.conns slot).outq.sent = 0))
  | .accept .. | .flush .. => inferInstanceAs (Decidable True)

/-- One step keeps every stream in order, if its response does not fall into a
notification. -/
theorem inOrder_step {s : EventLoop} {e : LoopEvent} (hen : s.Enabled e)
    (hmet : ResponsesApart s e) (h : ∀ slot, InOrder s slot) (slot : Nat) :
    InOrder (s.after e) slot := by
  rcases Decidable.em (slot = e.slot) with rfl | hne
  · cases e with
    | accept slot fd =>
        rw [InOrder, LoopEvent.slot, EventLoop.after_accept_conn, EventLoop.after_accept_wire]
        exact ⟨fun _ => .nil _ rfl, .nil⟩
    | request slot input room env =>
        obtain ⟨status, payload, k, hshort, hout, hkeep, hsilent⟩ :=
          handleRequest_output s.d slot ⟨input, room, s.wire slot⟩ env
        have hprogress := (h slot).1 hen.2
        have hwell : WellFramed (s.wire slot ++ (frameBytes status payload).take k) := by
          rcases Decidable.em (Responds input room) with hresponds | hnot
          · exact hprogress.responsePart (hmet hresponds) hshort k
          · rw [hsilent hnot, List.take_zero, List.append_nil]
            exact hprogress.wellFramed
        refine ⟨fun hfd => ?_, ?_⟩
        · rcases Decidable.em ((s.handled slot input room env).fate = .keep) with hfate | hfate
          · have hkept := handleRequest_conns s.d slot ⟨input, room, s.wire slot⟩ env slot
            have hwhole := hkeep hfate
            have hresponds : Responds input room := by
              refine Decidable.by_contra fun hnot => ?_
              rw [hsilent hnot, length_frameBytes] at hwhole
              omega
            rw [hwhole, List.take_length] at hout
            rw [LoopEvent.slot, EventLoop.after_request_keep hfate, EventLoop.after_request_wire]
            exact hout ▸ (hprogress.response (hmet hresponds) hshort).of_kept hkept
          · rw [LoopEvent.slot, EventLoop.after_request_close hfate] at hfd
            exact absurd hfd connInit_closed
        · rw [LoopEvent.slot, EventLoop.after_request_wire]
          exact hout ▸ hwell
    | flush slot results now =>
        obtain ⟨hwire, hconn⟩ := s.after_flush slot results now
        have hprogress := ((h slot).1 hen.1.2).flush results
        rw [InOrder, LoopEvent.slot, hwire, hconn]
        cases (outqFlushLoop results (s.d.conns slot).outq).2.2 with
        | true => exact ⟨fun _ => hprogress, hprogress.wellFramed⟩
        | false => exact ⟨fun hfd => absurd hfd connInit_closed, hprogress.wellFramed⟩
  · have hkept := s.after_conn_of_ne hne
    rw [InOrder, EventLoop.after_wire_of_ne hne]
    exact ⟨fun hfd => ((h slot).1 (hkept.fd ▸ hfd)).of_kept hkept, (h slot).2⟩

/-- **Frame integrity.**  In a run in which no response is sent while a notification is
on its way in part, what has been sent on a connection is well framed at every
moment. -/
theorem wellFramed_of_responsesApart {d : Rtdbd} (hd : ∀ slot, (d.conns slot).fd < 0)
    {past : List (EventLoop × LoopEvent)} {s : EventLoop}
    (hrun : EventLoop.Guarded ResponsesApart (.start d) past s) (slot : Nat)
    {sent : List UInt8} (hsent : sent <+: s.wire slot) : WellFramed sent := by
  have horder : ∀ slot, InOrder s slot := by
    refine hrun.invariant_state (P := fun s => ∀ slot, InOrder s slot) ?_ ?_
    · intro slot
      exact ⟨fun hfd => absurd hfd (Int.not_le.mpr (hd slot)), .nil⟩
    · intro s e h hcan
      exact inOrder_step hcan.1 hcan.2 h
  exact (horder slot).2.earlier hsent

/-- A client subscribes to a point, writes it, takes the notification in two parts and
pings. -/
def resumption : List LoopEvent :=
  [.accept 0 5,
    .request 0 subscribeZero none operator,
    .request 0 writeZero none operator,
    .flush 0 [.took 1] 1,
    .flush 0 [.took 43] 2,
    .request 0 (hdrBytes rtdbdOpPing 0) none operator]

theorem wellFramed_of_responsesApart_resumption :
    WellFramed ((resumption.foldl EventLoop.after (.start entered)).wire 0) ∧
      ((resumption.foldl EventLoop.after (.start entered)).wire 0).length = 80 := by
  have hstart : EventLoop.Guarded ResponsesApart (.start entered) [] (.start entered) := .start
  have hrun := hstart.follow resumption (by decide +kernel)
  exact ⟨wellFramed_of_responsesApart entered_closed hrun 0 (List.prefix_refl _),
    by decide +kernel⟩

/-- A client subscribes to a point, writes it, takes one byte of the notification and
pings. -/
def interruption : List LoopEvent :=
  [.accept 0 5,
    .request 0 subscribeZero none operator,
    .request 0 writeZero none operator,
    .flush 0 [.took 1] 1,
    .request 0 (hdrBytes rtdbdOpPing 0) none operator]

/-- The ping is answered behind the first byte of the notification. -/
theorem not_wellFramed :
    ¬ ∀ (d : Rtdbd) (past : List (EventLoop × LoopEvent)) (s : EventLoop),
      (∀ slot, (d.conns slot).fd < 0) → EventLoop.Runs (.start d) past s →
        ∀ slot, WellFramed (s.wire slot) := by
  intro hframed
  have hstart : EventLoop.Runs (.start entered) [] (.start entered) := .start
  have hrun := hstart.follow interruption (by decide +kernel)
  have hsent := hframed _ _ _ entered_closed hrun 0
  have hresponses := (hsent.rest (by decide +kernel)).rest (by decide +kernel)
  have hmagic := hresponses.magic (by decide +kernel)
  revert hmagic
  decide +kernel

end InduRtdb.Daemon
