/-
  Client/Partition.lean --- the client and the daemon: the selected partition.

  Source: `irtcli_connect`, `irtcli_flush`, `rt_submit` and `irtcli_select` of
  `client/src/client.c`; `op_select`, `handle_request` and `main` of
  `rtdbd/src/rtdbd.c`.

  The other end is the event loop of the daemon.  Between two requests of the client
  it serves others; requests and responses arrive as far as the connection lasts;
  and behind a loss the client may find a daemon that has been started again.  The
  partition is a field of the connection record, so that a new connection starts in
  partition zero, while the client keeps what it has selected.
-/
import InduRtdb.Client.Stream
import InduRtdb.Daemon.Authority
import InduRtdb.Daemon.Framing

set_option autoImplicit false

namespace InduRtdb.Client

open InduRtdb.Core InduRtdb.Daemon

/-! ## How long the answers are -/

/-- A handler sends the beginning of a response that has no payload, or announces
success and has a payload of `size` bytes. -/
def AnswersWith (size : Nat) (cx : RtdbdCtx) (r : Fate × RtdbdCtx) : Prop :=
  ∃ status payload k, (payload = [] ∨ status = rtdbdStOk ∧ payload.length = size) ∧
    r.2.sock.output = cx.sock.output ++ (frameBytes status payload).take k

namespace AnswersWith

variable {size : Nat} {cx : RtdbdCtx}

theorem respond {cx' : RtdbdCtx} (hout : cx'.sock.output = cx.sock.output) {status : Nat}
    {payload : List UInt8} (hpayload : payload = [] ∨ status = rtdbdStOk ∧ payload.length = size) :
    AnswersWith size cx (cx'.respond status payload) := by
  obtain ⟨k, room, heq, -⟩ := respond_eq cx' status payload
  refine ⟨status, payload, k, hpayload, ?_⟩
  rw [heq, hout]

theorem refuse {cx' : RtdbdCtx} (hout : cx'.sock.output = cx.sock.output) (status : Nat) :
    AnswersWith size cx (cx'.refuse status) := respond hout (.inl rfl)

theorem withPayload {n : Nat} {k : List UInt8 → Handler}
    (h : ∀ bytes cx', cx'.sock.output = cx.sock.output → AnswersWith size cx (k bytes cx')) :
    AnswersWith size cx (cx.withPayload n k) := by
  unfold RtdbdCtx.withPayload
  split
  next => exact refuse rfl _
  next =>
    unfold Socket.recvAll
    split
    next heq =>
      split at heq
      · cases heq
      · obtain ⟨-, rfl⟩ := Prod.mk.inj heq
        exact refuse rfl _
    next bytes sock heq =>
      split at heq
      · obtain ⟨-, rfl⟩ := Prod.mk.inj heq
        exact h bytes _ rfl
      · cases heq

theorem withPeer {cx' : RtdbdCtx} (hout : cx'.sock.output = cx.sock.output)
    {k : Nat → Nat → Handler} (h : ∀ pid uid, AnswersWith size cx (k pid uid cx')) :
    AnswersWith size cx (cx'.withPeer k) := by
  unfold RtdbdCtx.withPeer
  split
  · exact refuse hout _
  · exact h _ _

end AnswersWith

theorem opFindByName_answers (cx : RtdbdCtx) : AnswersWith sizeofWord cx (opFindByName cx) :=
  .withPayload fun bytes cx' hout => by
    dsimp only
    split
    · exact .respond (by exact hout) (.inl rfl)
    · split
      · exact .respond (by exact hout) (.inl rfl)
      · exact .respond (by exact hout) (.inl rfl)
      · exact .respond (by exact hout) (.inr ⟨rfl, rfl⟩)

theorem opGetMeta_answers (cx : RtdbdCtx) : AnswersWith 32 cx (opGetMeta cx) :=
  .withPayload fun bytes cx' hout => by
    split
    · exact .respond (by exact hout) (.inl rfl)
    · exact .respond (by exact hout) (.inl rfl)
    · exact .respond (by exact hout) (.inl rfl)
    · exact .respond (by exact hout) (.inr ⟨rfl, rfl⟩)

theorem opSelect_answers (cx : RtdbdCtx) : AnswersWith 0 cx (opSelect cx) :=
  .withPayload fun bytes cx' hout => by
    dsimp only
    split
    · exact .respond (by exact hout) (.inl rfl)
    · exact .respond (by exact hout) (.inl rfl)

theorem opManaged_answers (op : Managed) (cx : RtdbdCtx) : AnswersWith 0 cx (opManaged op cx) :=
  .withPayload fun bytes cx' hout => .withPeer hout fun pid uid => by
    dsimp only
    split
    · exact .respond (by exact hout) (.inl rfl)
    · split
      · exact .respond (by exact hout) (.inl rfl)
      · split
        next h _ =>
          refine .respond ?_ (.inl rfl)
          cases op.log bytes uid with
          | none => exact hout
          | some text => exact hout
        next => exact .respond (by exact hout) (.inl rfl)

theorem opWrite_answers (cx : RtdbdCtx) : AnswersWith 0 cx (opWrite cx) :=
  .withPayload fun bytes cx' hout => .withPeer hout fun pid uid => by
    dsimp only
    split
    · exact .respond (by exact hout) (.inl rfl)
    · split
      · exact .respond (by exact hout) (.inl rfl)
      · split
        · exact .respond (by exact hout) (.inl rfl)
        · exact .respond (by exact hout) (.inl rfl)
        next m h _ =>
          unfold RtdbdCtx.respondAndBroadcast
          have hanswer : AnswersWith 0 cx (RtdbdCtx.respond
              (RtdbdCtx.wrote { cx' with d := { cx'.d with h := h } } pid uid cx'.conn.partition
                (RtdbdWriteReq.ofBytes bytes).pointId) rtdbdStOk []) :=
            .respond (by exact hout) (.inl rfl)
          split
          next heq => rw [heq] at hanswer; exact hanswer
          next heq => rw [heq] at hanswer; exact hanswer

/-- The opcodes whose answers have a fixed length, and that length. -/
theorem dispatch_answers {cx : RtdbdCtx} {size : Nat}
    (hop : (cx.req.opcode, size) ∈ (rtdbdOpWrite, 0) :: fixedAnswers) :
    AnswersWith size cx (dispatch cx) := by
  have hfound : ∀ {op : Handler}, kOps.find? (fun op => op.1 == cx.req.opcode) =
      some (cx.req.opcode, op) → dispatch cx = op cx := by
    intro op hfind
    rw [dispatch, hfind]
  obtain ⟨opcode, hopcode⟩ : ∃ opcode, cx.req.opcode = opcode := ⟨_, rfl⟩
  rw [hopcode] at hop hfound
  simp only [List.mem_cons, Prod.mk.injEq, List.not_mem_nil, or_false] at hop
  obtain ⟨rfl, rfl⟩ | ⟨rfl, rfl⟩ | ⟨rfl, rfl⟩ | ⟨rfl, rfl⟩ | ⟨rfl, rfl⟩ := hop
  · exact hfound rfl ▸ opWrite_answers cx
  · exact hfound rfl ▸ opFindByName_answers cx
  · exact hfound rfl ▸ opSelect_answers cx
  · exact hfound rfl ▸ opGetMeta_answers cx
  · exact hfound rfl ▸ opManaged_answers setMeta cx

/-! ## Requests of the client -/

/-- The header of a request is read back. -/
theorem headerOf_frameBytes {opcode : Nat} (hop : opcode < 2 ^ 16) {payload : List UInt8}
    (hlen : payload.length < 2 ^ 32) :
    headerOf (frameBytes opcode payload) =
      ⟨rtdbdMagic, rtdbdProtoVersion, opcode, payload.length⟩ := by
  have hfields : headerOf (frameBytes opcode payload) =
      ⟨ofLe (le32 rtdbdMagic), ofLe (le16 rtdbdProtoVersion), ofLe (le16 opcode),
        ofLe (le32 payload.length)⟩ := rfl
  rw [hfields, ofLe_le32 (by decide), ofLe_le16 (by decide), ofLe_le16 hop, ofLe_le32 hlen]

theorem opcode_frameBytes {opcode : Nat} (hop : opcode < 2 ^ 16) (payload : List UInt8) :
    (headerOf (frameBytes opcode payload)).opcode = opcode := by
  have hfield : (headerOf (frameBytes opcode payload)).opcode = ofLe (le16 opcode) := rfl
  rw [hfield, ofLe_le16 hop]

/-- The header of a response is read back. -/
theorem respHdr_frameBytes {status : Nat} (hstatus : status < 2 ^ 16) {payload : List UInt8}
    (hlen : payload.length < 2 ^ 32) :
    RtdbdRespHdr.ofBytes (frameBytes status payload) =
      ⟨rtdbdMagic, rtdbdProtoVersion, status, payload.length⟩ := by
  have hfields : RtdbdRespHdr.ofBytes (frameBytes status payload) =
      ⟨ofLe (le32 rtdbdMagic), ofLe (le16 rtdbdProtoVersion), ofLe (le16 status),
        ofLe (le32 payload.length)⟩ := rfl
  rw [hfields, ofLe_le32 (by decide), ofLe_le16 (by decide), ofLe_le16 hstatus, ofLe_le32 hlen]

theorem headerOf_take {bytes : List UInt8} {n : Nat}
    (hlong : sizeofHdr ≤ (bytes.take n).length) : headerOf (bytes.take n) = headerOf bytes := by
  rw [List.length_take] at hlong
  rw [headerOf, headerOf, List.take_take, Nat.min_eq_left (by omega)]

theorem respHdr_take {bytes : List UInt8} {n : Nat} (hlong : sizeofHdr ≤ (bytes.take n).length) :
    RtdbdRespHdr.ofBytes (bytes.take n) = .ofBytes bytes := by
  rw [List.length_take] at hlong
  rw [← RtdbdRespHdr.ofBytes_take, List.take_take, Nat.min_eq_left (by omega),
    RtdbdRespHdr.ofBytes_take]

/-! ## The daemon at the other end -/

/-- As many bytes as arrive. -/
def upTo (n : Option Nat) (bytes : List UInt8) : List UInt8 :=
  match n with
  | none => bytes
  | some n => bytes.take n

/-- What a request meets: what the loop does for others before it, whether the client's
`send` takes it, how much of it reaches the daemon, how much of the response the daemon
can send, and how much of that arrives before the connection breaks, if it does. -/
structure Turn where
  others : List LoopEvent
  sends : Bool
  reaches : Option Nat
  room : Option Nat
  env : Env
  arrives : Option Nat

/-- What a `connect` meets: a daemon that has been started again, perhaps; what its
loop does for others; what `connect` returns; and the place in the connection table
where the daemon accepts, if it can. -/
structure Visit where
  restart : Option Rtdbd
  others : List LoopEvent
  fd : Option Nat
  slot : Nat
  connFd : Int

/-- The turns and visits of a run, in the order in which they are met. -/
structure Service where
  turns : Nat → Turn
  visits : Nat → Visit

/-- The daemon, the place of the client's connection, and how far the run has come. -/
structure Served where
  loop : EventLoop
  place : Option Nat
  turns : Nat
  visits : Nat

/-- The client has not connected yet. -/
def Served.start (loop : EventLoop) : Served := ⟨loop, none, 0, 0⟩

/-- What the loop does for others: nothing on the client's connection. -/
def elsewhere (place : Option Nat) (s : EventLoop) (events : List LoopEvent) : EventLoop :=
  events.foldl (fun s e => if s.Enabled e ∧ place ≠ some e.slot then s.after e else s) s

namespace Service

/-- A `connect` of the client. -/
def connect (service : Service) (l : Served) : Option Nat × Served :=
  let visit := service.visits l.visits
  let loop := elsewhere none (visit.restart.elim l.loop .start) visit.others
  let accepted := visit.fd.isSome ∧ loop.Enabled (.accept visit.slot visit.connFd)
  (visit.fd,
    { loop := if accepted then loop.after (.accept visit.slot visit.connFd) else loop
      place := if accepted then some visit.slot else none
      turns := l.turns
      visits := l.visits + 1 })

/-- A request of the client.  One that is not taken has no answer. -/
def request (service : Service) (l : Served) (opcode : Nat) (payload : List UInt8) :
    Arrival × Served :=
  let turn := service.turns l.turns
  let loop := elsewhere l.place l.loop turn.others
  match l.place with
  | none => (⟨turn.sends, [], none⟩, { l with loop := loop, turns := l.turns + 1 })
  | some slot =>
      let input := upTo turn.reaches (frameBytes opcode payload)
      let done := loop.handled slot input turn.room turn.env
      let response := done.sock.output.drop (loop.wire slot).length
      let stays := done.fate = .keep ∧ turn.sends = true ∧ turn.arrives = none
      ( { sends := turn.sends
          bytes := if turn.sends then upTo turn.arrives response else []
          seen := if HeaderArrives input then some (loop.d.conns slot).partition else none },
        { loop := loop.after (.request slot input turn.room turn.env)
          place := if stays then some slot else none
          turns := l.turns + 1
          visits := l.visits })

/-- The daemon as the other end of the client. -/
def line (service : Service) : Line Served where
  connect := service.connect
  request := service.request
  lose l := { l with place := none }

end Service

/-- The partition of the connection record, where there is a connection. -/
def Served.Selected (l : Served) (partition : UInt32) : Prop :=
  ∀ slot, l.place = some slot → (l.loop.d.conns slot).partition = partition

/-- What the loop does for another connection leaves the partition. -/
theorem after_partition_of_ne (s : EventLoop) {e : LoopEvent} {j : Nat} (hne : j ≠ e.slot) :
    ((s.after e).d.conns j).partition = (s.d.conns j).partition := by
  cases e with
  | accept slot fd => exact congrArg _ (Function.update_of_ne hne _ s.d.conns)
  | flush slot results now => exact congrArg _ (Function.update_of_ne hne _ s.d.conns)
  | request slot input room env =>
      have hne : j ≠ slot := hne
      rw [← (requestAccount s slot input room env).others j hne]
      unfold EventLoop.after
      dsimp only
      split
      · rfl
      · exact congrArg _ (Function.update_of_ne hne _ _)

theorem elsewhere_partition (events : List LoopEvent) (slot : Nat) :
    ∀ s : EventLoop, ((elsewhere (some slot) s events).d.conns slot).partition =
      (s.d.conns slot).partition := by
  induction events with
  | nil => exact fun _ => rfl
  | cons e events ih =>
      intro s
      rw [elsewhere, List.foldl_cons]
      refine (ih _).trans ?_
      split
      next h => exact after_partition_of_ne s fun heq => h.2 (congrArg some heq)
      next => rfl

/-! ## What a request of the client does -/

theorem upTo_eq_take (n : Option Nat) (bytes : List UInt8) : ∃ k, upTo n bytes = bytes.take k := by
  cases n with
  | none => exact ⟨bytes.length, (List.take_length).symm⟩
  | some n => exact ⟨n, rfl⟩

theorem Path.Sends.opcode_lt {path : Path} {opcode : Nat} (hsends : path.Sends opcode) :
    opcode < 2 ^ 16 := by
  cases path with
  | write => exact hsends ▸ by decide
  | rewrite => exact hsends ▸ by decide
  | list cap => exact hsends ▸ by decide
  | fixed opcode' respLen =>
      obtain ⟨rfl, hmem⟩ := hsends
      have hall : ∀ answer ∈ fixedAnswers, answer.1 < 2 ^ 16 := by decide
      exact hall _ hmem

/-- Off the lists, a response with success has the length that is read. -/
theorem Path.Sends.size {path : Path} {opcode : Nat} (hsends : path.Sends opcode)
    (hfixed : ¬ ∃ cap, path = .list cap) :
    ∃ size, (opcode, size) ∈ (rtdbdOpWrite, 0) :: fixedAnswers ∧ size < 2 ^ 32 ∧
      ∀ resp : RtdbdRespHdr, resp.Succeeds → path.rest resp = size := by
  cases path with
  | write => exact ⟨0, hsends ▸ List.mem_cons_self, by decide, fun _ _ => rfl⟩
  | rewrite => exact ⟨0, hsends ▸ List.mem_cons_self, by decide, fun _ _ => rfl⟩
  | list cap => exact absurd ⟨cap, rfl⟩ hfixed
  | fixed opcode' respLen =>
      obtain ⟨rfl, hmem⟩ := hsends
      have hall : ∀ answer ∈ fixedAnswers, answer.2 < 2 ^ 32 := by decide
      exact ⟨respLen, List.mem_cons_of_mem _ hmem, hall _ hmem, fun _ h => if_pos h⟩

section

variable {s : EventLoop} {slot : Nat} {opcode : Nat} {payload : List UInt8} {reaches : Option Nat}
  {room : Option Nat} {env : Env}

/-- The opcode the daemon reads is that of the request. -/
theorem opcode_arrived (hop : opcode < 2 ^ 16)
    (harrives : HeaderArrives (upTo reaches (frameBytes opcode payload))) :
    (headerOf (upTo reaches (frameBytes opcode payload))).opcode = opcode := by
  obtain ⟨k, hk⟩ := upTo_eq_take reaches (frameBytes opcode payload)
  rw [hk] at harrives ⊢
  rw [headerOf_take harrives.1, opcode_frameBytes hop]

/-- A request that selects nothing leaves the partition of its connection. -/
theorem after_request_partition (hop : opcode < 2 ^ 16) (hne : opcode ≠ rtdbdOpSelect)
    (hkeep : (s.handled slot (upTo reaches (frameBytes opcode payload)) room env).fate = .keep) :
    ((s.after (.request slot (upTo reaches (frameBytes opcode payload)) room env)).d.conns
      slot).partition = (s.d.conns slot).partition := by
  rw [EventLoop.after_request_keep hkeep]
  rcases (requestAccount s slot (upTo reaches (frameBytes opcode payload)) room env).partition
    with ⟨hsame, -⟩ | ⟨⟨harrives, hselects⟩, -⟩
  · exact hsame
  · exact absurd ((opcode_arrived hop harrives).symm.trans hselects.1) hne

/-- What arrives of a response is the beginning of one that fits. -/
theorem response_fits {path : Path} (hsends : path.Sends opcode)
    (hfixed : ¬ ∃ cap, path = .list cap) (arrives : Option Nat) :
    let bytes := upTo arrives
      ((s.handled slot (upTo reaches (frameBytes opcode payload)) room env).sock.output.drop
        (s.wire slot).length)
    bytes.length ≤ sizeofHdr + path.rest (.ofBytes bytes) := by
  dsimp only
  obtain ⟨size, hmem, hsize, hrest⟩ := hsends.size hfixed
  -- what is sent is the beginning of a response
  have hsent : ∃ status response k, (response = [] ∨ status = rtdbdStOk ∧ response.length = size) ∧
      (s.handled slot (upTo reaches (frameBytes opcode payload)) room env).sock.output =
        s.wire slot ++ (frameBytes status response).take k := by
    rcases Decidable.em (HeaderArrives (upTo reaches (frameBytes opcode payload)))
      with harrives | hnot
    · rw [EventLoop.handled, handleRequest_eq harrives]
      have hop : (headerOf (upTo reaches (frameBytes opcode payload))).opcode = opcode :=
        opcode_arrived hsends.opcode_lt harrives
      exact dispatch_answers (hop.symm ▸ hmem)
    · obtain ⟨st, input, -, hhandled⟩ := @handleRequest_of_not_header s.d slot
        ⟨upTo reaches (frameBytes opcode payload), room, s.wire slot⟩ env hnot
      refine ⟨rtdbdStOk, [], 0, .inl rfl, ?_⟩
      rw [EventLoop.handled, hhandled, List.take_zero, List.append_nil]
  obtain ⟨status, response, k, hpayload, hout⟩ := hsent
  rw [hout, List.drop_left]
  obtain ⟨n, hn⟩ := upTo_eq_take arrives ((frameBytes status response).take k)
  rw [hn, List.take_take]
  rcases Nat.lt_or_ge ((frameBytes status response).take (min n k)).length sizeofHdr
    with hshort | hlong
  · omega
  · rw [respHdr_take hlong]
    have hlen : ((frameBytes status response).take (min n k)).length ≤
        sizeofHdr + response.length := by
      rw [List.length_take, length_frameBytes]
      exact Nat.min_le_right _ _
    refine hlen.trans (Nat.add_le_add_left ?_ sizeofHdr)
    rcases hpayload with rfl | ⟨rfl, rfl⟩
    · exact Nat.zero_le _
    · have hsucceeds : (RtdbdRespHdr.ofBytes (frameBytes rtdbdStOk response)).Succeeds := by
        rw [respHdr_frameBytes (by decide) hsize]
        exact ⟨⟨rfl, rfl⟩, rfl⟩
      rw [hrest _ hsucceeds]

/-- A `SELECT` whose connection stays has been answered, with success when it has moved
the partition. -/
theorem after_request_selected (q : UInt32)
    (hkeep : (s.handled slot (upTo reaches (frameBytes rtdbdOpSelect (le32 q.toNat))) room
      env).fate = .keep) :
    ((s.after (.request slot (upTo reaches (frameBytes rtdbdOpSelect (le32 q.toNat))) room
        env)).d.conns slot).partition =
      if (RtdbdRespHdr.ofBytes ((s.handled slot
          (upTo reaches (frameBytes rtdbdOpSelect (le32 q.toNat))) room env).sock.output.drop
            (s.wire slot).length)).Succeeds then q else (s.d.conns slot).partition := by
  rw [EventLoop.after_request_keep hkeep]
  obtain ⟨n, hn⟩ := upTo_eq_take reaches (frameBytes rtdbdOpSelect (le32 q.toNat))
  generalize hinput : upTo reaches (frameBytes rtdbdOpSelect (le32 q.toNat)) = input at hkeep hn ⊢
  -- all of the request has been read
  have hread : sizeofHdr + readBehind (headerOf input) ≤ input.length :=
    (handleRequest_keep hkeep).1
  have hheader : headerOf input = ⟨rtdbdMagic, rtdbdProtoVersion, rtdbdOpSelect, sizeofWord⟩ := by
    rw [hn, headerOf_take (by rw [← hn]; omega), headerOf_frameBytes (by decide)
      (show (le32 q.toNat).length < 2 ^ 32 from (by decide : 4 < 2 ^ 32))]
    rfl
  have hwhole : input = frameBytes rtdbdOpSelect (le32 q.toNat) := by
    have hbehind : readBehind (headerOf input) = sizeofWord := by
      rw [hheader]
      rfl
    have hlen : (frameBytes rtdbdOpSelect (le32 q.toNat)).length = sizeofHdr + sizeofWord := rfl
    rw [hbehind, hn, List.length_take, hlen] at hread
    rw [hn, List.take_of_length_le (by omega)]
  have hq : UInt32.ofNat (fieldAt (EventLoop.payloadOf input) 0 4) = q := by
    have hfield : fieldAt (EventLoop.payloadOf input) 0 4 = ofLe (le32 q.toNat) := by
      rw [EventLoop.payloadOf, hheader, hwhole]
      rfl
    rw [hfield, ofLe_le32 q.toNat_lt, UInt32.ofNat_toNat]
  have harrives : HeaderArrives input := by
    refine ⟨by omega, ?_⟩
    rw [hheader]
    exact ⟨rfl, rfl⟩
  obtain ⟨reply, decided, hhandled⟩ :=
    @handleRequest_of_header s.d slot ⟨input, room, s.wire slot⟩ env harrives
  have hop : (s.ctx slot input room env).req.opcode = rtdbdOpSelect := congrArg (·.opcode) hheader
  obtain ⟨hstatus, hok⟩ := decided.ok_iff (by
    rw [show (RtdbdCtx.ofRequest s.d slot ⟨input, room, s.wire slot⟩ env).req.opcode =
      rtdbdOpSelect from hop]
    exact Option.some_ne_none _)
  -- and all of the response has been sent
  obtain ⟨k, room', hsock, hall, -⟩ :=
    reply.send_eq (RtdbdCtx.ofRequest s.d slot ⟨input, room, s.wire slot⟩ env)
  have hsent : (s.handled slot input room env).sock.output =
      s.wire slot ++ frameBytes reply.status reply.payload := by
    rw [EventLoop.handled, hhandled] at hkeep ⊢
    rw [(hall hkeep).1, List.take_length] at hsock
    rw [hsock]
    rfl
  have hsucceeds : (RtdbdRespHdr.ofBytes ((s.handled slot input room env).sock.output.drop
      (s.wire slot).length)).Succeeds ↔ (s.ctx slot input room env).Carried := by
    rw [hsent, List.drop_left, respHdr_frameBytes hstatus decided.short]
    exact (and_iff_right ⟨rfl, rfl⟩).trans hok
  rcases (requestAccount s slot input room env).partition with
    ⟨hsame, hnot⟩ | ⟨⟨-, hselects⟩, hmoved⟩
  · rw [hsame, if_neg fun h => hnot ⟨harrives, hop, hsucceeds.mp h⟩]
  · rw [hmoved, hq, if_pos (hsucceeds.mpr hselects.2)]

end

namespace Service

variable {service : Service} {l : Served} {opcode : Nat} {payload : List UInt8}

theorem request_of_away (hplace : l.place = none) :
    service.request l opcode payload =
      (⟨(service.turns l.turns).sends, [], none⟩,
        { l with
          loop := elsewhere none l.loop (service.turns l.turns).others
          turns := l.turns + 1 }) := by
  unfold request
  rw [hplace]

/-- On a connection there is, the daemon handles the request. -/
theorem request_of_placed {slot : Nat} (hplace : l.place = some slot) {turn : Turn}
    (hturn : service.turns l.turns = turn) {s : EventLoop}
    (hloop : elsewhere (some slot) l.loop turn.others = s) :
    let input := upTo turn.reaches (frameBytes opcode payload)
    let done := s.handled slot input turn.room turn.env
    service.request l opcode payload =
      ( { sends := turn.sends
          bytes := if turn.sends then
              upTo turn.arrives (done.sock.output.drop (s.wire slot).length) else []
          seen := if HeaderArrives input then some (s.d.conns slot).partition else none },
        { loop := s.after (.request slot input turn.room turn.env)
          place :=
            if done.fate = .keep ∧ turn.sends = true ∧ turn.arrives = none then some slot else none
          turns := l.turns + 1
          visits := l.visits }) := by
  unfold request
  simp only [hplace, hturn, hloop]

end Service

/-- The daemon keeps to the client: its connection record has the partition the client
has selected. -/
theorem Service.keeps (service : Service) :
    service.line.Keeps Served.Selected (fun partition => partition = 0)
      fun path => ∃ cap, path = .list cap where
  connect := by
    intro l fd l' p hconnect hp slot hplace
    obtain ⟨-, rfl⟩ := Prod.mk.inj hconnect
    dsimp only at hplace ⊢
    split at hplace
    next haccepted =>
      obtain rfl := Option.some.inj hplace
      rw [if_pos haccepted, EventLoop.after_accept_conn, hp]
      rfl
    next => cases hplace
  lose := fun l p _ slot hplace => by cases hplace
  seen := by
    intro l opcode payload p hselected partition hseen
    have hrequest : service.line.request l opcode payload = service.request l opcode payload := rfl
    rw [hrequest] at hseen
    cases hplace : l.place with
    | none => rw [Service.request_of_away hplace] at hseen; cases hseen
    | some slot =>
        rw [Service.request_of_placed hplace rfl rfl] at hseen
        dsimp only at hseen
        split at hseen
        next =>
          rw [← Option.some.inj hseen, elsewhere_partition]
          exact hselected slot hplace
        next => cases hseen
  stays := by
    intro l path opcode payload p hselected hsends hne slot' hplace'
    have hrequest : service.line.request l opcode payload = service.request l opcode payload := rfl
    rw [hrequest] at hplace' ⊢
    cases hplace : l.place with
    | none => rw [Service.request_of_away hplace] at hplace'; cases hplace.symm.trans hplace'
    | some slot =>
        rw [Service.request_of_placed hplace rfl rfl] at hplace' ⊢
        dsimp only at hplace' ⊢
        split at hplace'
        next hstays =>
          obtain rfl := Option.some.inj hplace'
          rw [after_request_partition hsends.opcode_lt hne hstays.1, elsewhere_partition]
          exact hselected slot hplace
        next => cases hplace'
  selects := by
    intro l p q hselected _ slot' hplace'
    have hrequest : service.line.request l rtdbdOpSelect (le32 q.toNat) =
        service.request l rtdbdOpSelect (le32 q.toNat) := rfl
    rw [hrequest] at hplace' ⊢
    cases hplace : l.place with
    | none => rw [Service.request_of_away hplace] at hplace'; cases hplace.symm.trans hplace'
    | some slot =>
        rw [Service.request_of_placed hplace rfl rfl] at hplace' ⊢
        dsimp only at hplace' ⊢
        split at hplace'
        next hstays =>
          obtain rfl := Option.some.inj hplace'
          rw [after_request_selected q hstays.1, if_pos hstays.2.1, hstays.2.2,
            elsewhere_partition, hselected slot hplace]
          rfl
        next => cases hplace'
  fits := by
    intro l path opcode payload p hselected hsends hfixed
    have hrequest : service.line.request l opcode payload = service.request l opcode payload := rfl
    rw [hrequest, Exchange.Consumed]
    cases hplace : l.place with
    | none =>
        rw [Service.request_of_away hplace]
        dsimp only
        split
        · exact Nat.zero_le _
        · exact fun _ => rfl
    | some slot =>
        rw [Service.request_of_placed hplace rfl rfl]
        dsimp only
        split
        next hsent => exact response_fits hsends hfixed _
        next => exact fun _ => rfl

/-- **The selected partition.**  Where the client never connects behind a selection, and
no list has more points than it has room for, every request is handled in the partition
of the client. -/
theorem agreed_of_selections (service : Service) (loop : EventLoop) {sockPath : CStr} {cap : Nat}
    {c : Irtcli} (hinit : irtcliInit sockPath cap = .ok c) (calls : List Call)
    (hconnects : ∀ p, p ∈ ((Session.start c (.start loop)).run service.line calls).connects →
      p = 0)
    (hlists : ∀ x, x ∈ ((Session.start c (.start loop)).run service.line calls).log →
      (∃ room, x.path = .list room) → x.Consumed) :
    ∀ x, x ∈ ((Session.start c (.start loop)).run service.line calls).log → x.Agreed := by
  have hleads := Session.run_leads service.keeps calls (.start c (.start loop))
  exact (hleads.placed ⟨hlists, hconnects⟩ (Session.start_placed hinit _)).agreed

/-! ## A connection that is lost -/

/-- The connection of the client holds, and the daemon accepts it. -/
def steady : Service where
  turns := fun _ => ⟨[], true, none, none, operator, none⟩
  visits := fun n => ⟨none, [], some 3, n, 5⟩

/-- A client writes, selects and writes again. -/
def selecting : List Call :=
  [.connect, .setAsync false, .writeInt32 0 7 0, .select 1, .writeInt32 0 8 0]

theorem agreed_of_selections_steady :
    ((Session.start newClient (.start (.start entered))).run steady.line selecting).log.all
      (fun x => decide x.Agreed) = true := by
  have hzero : ((Session.start newClient (.start (.start entered))).run steady.line
      selecting).connects.all (· == 0) = true := by decide +kernel
  have hpaths : ∀ x ∈ ((Session.start newClient (.start (.start entered))).run steady.line
      selecting).log, x.path = .write ∨ x.path = .fixed rtdbdOpSelect 0 := by decide +kernel
  apply List.all_eq_true.mpr
  intro x hx
  apply decide_eq_true
  apply agreed_of_selections steady (.start entered) newClient_init selecting
  · intro p hp
    exact beq_iff_eq.mp (List.all_eq_true.mp hzero p hp)
  · rintro x hx ⟨room, hroom⟩
    rcases hpaths x hx with hpath | hpath
    · cases hroom.symm.trans hpath
    · cases hroom.symm.trans hpath
  · exact hx

/-- The connection is lost behind the first response. -/
def interrupted : Service :=
  { steady with turns := fun n => ⟨[], true, none, none, operator, if n = 0 then some 12 else none⟩ }

/-- The flush makes a new connection, in partition zero. -/
theorem not_agreed :
    ¬ ∀ (service : Service) (loop : EventLoop) (sockPath : CStr) (cap : Nat) (c : Irtcli),
      irtcliInit sockPath cap = .ok c → ∀ (calls : List Call) (x : Exchange),
        x ∈ ((Session.start c (.start loop)).run service.line calls).log → x.Agreed := by
  intro hall
  have hagreed := hall interrupted (.start entered) .empty 1 newClient newClient_init
    [.writeInt32 0 7 0, .select 1, .flush]
  have hwrong : ¬ ∀ x ∈ ((Session.start newClient (.start (.start entered))).run interrupted.line
      [.writeInt32 0 7 0, .select 1, .flush]).log, x.Agreed := by
    decide +kernel
  exact hwrong hagreed

end InduRtdb.Client
