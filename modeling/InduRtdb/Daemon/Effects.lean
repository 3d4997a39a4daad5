/-
  Daemon/Effects.lean --- all that a request can do.

  Source: `op_*`, `kOps` and `handle_request` of `rtdbd/src/rtdbd.c`.

  A handler decides on a response and on what becomes of the daemon, sends the
  response, and has at most a broadcast left to do behind it.  `Decided` lists the
  decisions there are, with the checks that were passed on the way; what is proved
  about all requests is proved by cases on it.
-/
import InduRtdb.Daemon.Handlers

set_option autoImplicit false

namespace InduRtdb.Daemon

open InduRtdb.Core InduRtdb.Api

/-! ## Replies -/

/-- What a handler has decided when it sends its response: the daemon, what is left
to read, the response, whether the connection is given up in any case, and what
happens behind a response that was sent. -/
structure Reply where
  d : Rtdbd
  input : List UInt8
  status : Nat
  payload : List UInt8
  refused : Bool
  announce : Rtdbd → Rtdbd

/-- Carry a decision out. -/
def Reply.send (reply : Reply) (cx : RtdbdCtx) : Fate × RtdbdCtx :=
  let sent := RtdbdCtx.respond
    { cx with d := reply.d, sock := { cx.sock with input := reply.input } }
    reply.status reply.payload
  if reply.refused then (.close, sent.2)
  else
    match sent with
    | (.close, cx) => (.close, cx)
    | (.keep, cx) => (.keep, { cx with d := reply.announce cx.d })

/-- A response changes nothing but the socket. -/
theorem respond_eq (cx : RtdbdCtx) (status : Nat) (payload : List UInt8) :
    ∃ k room, (cx.respond status payload).2 =
        { cx with sock := ⟨cx.sock.input, room,
          cx.sock.output ++ (frameBytes status payload).take k⟩ } ∧
      ((cx.respond status payload).1 = .keep → k = (frameBytes status payload).length) := by
  unfold RtdbdCtx.respond
  obtain ⟨ok, k, room, hsend, hk, hall⟩ :=
    cx.sock.sendAll_eq (hdrBytes status payload.length)
  rw [hsend]
  cases ok with
  | false =>
      refine ⟨k, room, ?_, fun h => by cases h⟩
      rw [frameBytes, List.take_append_of_le_length hk]
  | true =>
      obtain rfl := hall rfl
      obtain ⟨ok, k, room', hsend', hk', hall'⟩ :=
        Socket.sendAll_eq ⟨cx.sock.input, room, cx.sock.output ++
          (hdrBytes status payload.length).take (hdrBytes status payload.length).length⟩ payload
      have htake : cx.sock.output ++ (hdrBytes status payload.length).take
            (hdrBytes status payload.length).length ++ payload.take k =
          cx.sock.output ++ (frameBytes status payload).take
            ((hdrBytes status payload.length).length + k) := by
        rw [List.take_length, frameBytes, List.take_length_add_append, List.append_assoc]
      refine ⟨(hdrBytes status payload.length).length + k, room', ?_, fun h => ?_⟩
      · cases ok with
        | false => simp only [hsend', htake]
        | true => simp only [hsend', htake]
      · cases ok with
        | false =>
            simp only [hsend'] at h
            cases h
        | true => rw [hall' rfl, frameBytes, List.length_append]

theorem respond_env (cx : RtdbdCtx) (status : Nat) (payload : List UInt8) :
    (cx.respond status payload).2.env = cx.env := by
  obtain ⟨k, room, heq, -⟩ := respond_eq cx status payload
  rw [heq]

/-- The connection stays when all of the response can be sent. -/
theorem respond_keep_iff (cx : RtdbdCtx) (status : Nat) (payload : List UInt8) :
    (cx.respond status payload).1 = .keep ↔ cx.sock.Takes (frameBytes status payload).length := by
  rw [length_frameBytes, Socket.Takes, RtdbdCtx.respond, Socket.sendAll]
  cases hroom : cx.sock.room with
  | none => simp [Socket.sendAll]
  | some r =>
      rw [length_hdrBytes]
      rcases Nat.lt_or_ge r 12 with hshort | hlong
      · have hnot : ¬ 12 + payload.length ≤ r := by omega
        simp [Nat.not_le.mpr hshort, hnot]
      · simp only [if_pos hlong, Socket.sendAll]
        rcases Nat.lt_or_ge (r - 12) payload.length with hless | hmore
        · have hnot : ¬ 12 + payload.length ≤ r := by omega
          simp [Nat.not_le.mpr hless, hnot]
        · have hall : 12 + payload.length ≤ r := by omega
          simp [hmore, hall]

/-- Where everything can be sent, a response is sent as a whole. -/
theorem respond_unbounded {cx : RtdbdCtx} (hroom : cx.sock.room = none) (status : Nat)
    (payload : List UInt8) :
    cx.respond status payload = (.keep, { cx with sock :=
      { cx.sock with output := cx.sock.output ++ frameBytes status payload } }) := by
  simp only [RtdbdCtx.respond, Socket.sendAll, hroom, frameBytes, List.append_assoc]

/-- Carrying a decision out sends its response, and announces only behind a response
that was sent. -/
theorem Reply.send_eq (reply : Reply) (cx : RtdbdCtx) :
    ∃ k room, (reply.send cx).2.sock =
        ⟨reply.input, room, cx.sock.output ++ (frameBytes reply.status reply.payload).take k⟩ ∧
      ((reply.send cx).1 = .keep →
        k = (frameBytes reply.status reply.payload).length ∧ reply.refused = false) ∧
      (reply.send cx).2.d =
        if (reply.send cx).1 = .keep then reply.announce reply.d else reply.d := by
  obtain ⟨k, room, heq, hkeep⟩ := respond_eq
    { cx with d := reply.d, sock := { cx.sock with input := reply.input } }
    reply.status reply.payload
  refine ⟨k, room, ?_⟩
  unfold Reply.send
  dsimp only
  generalize RtdbdCtx.respond { cx with d := reply.d, sock := { cx.sock with input := reply.input } }
    reply.status reply.payload = sent at heq hkeep ⊢
  obtain ⟨fate, cx'⟩ := sent
  obtain rfl : cx' = _ := heq
  cases hrefused : reply.refused with
  | true => exact ⟨rfl, (fun h => by cases h), rfl⟩
  | false =>
      cases fate with
      | close => exact ⟨rfl, (fun h => by cases h), rfl⟩
      | keep => exact ⟨rfl, fun _ => ⟨hkeep rfl, rfl⟩, rfl⟩

/-- A decision that does not give the connection up keeps it when all of the response
can be sent. -/
theorem Reply.send_keep_iff {reply : Reply} (hstays : reply.refused = false) (cx : RtdbdCtx) :
    (reply.send cx).1 = .keep ↔
      cx.sock.Takes (frameBytes reply.status reply.payload).length := by
  have hsent := respond_keep_iff
    { cx with d := reply.d, sock := { cx.sock with input := reply.input } } reply.status
    reply.payload
  have htakes : Socket.Takes { cx.sock with input := reply.input } = cx.sock.Takes := rfl
  rw [htakes] at hsent
  rw [← hsent]
  unfold Reply.send
  simp only [hstays, Bool.false_eq_true, if_false]
  split
  next h => rw [h]
  next h => rw [h]

/-- Where nothing is announced, the daemon is as it was decided. -/
theorem Reply.send_quiet (reply : Reply) {cx : RtdbdCtx} (hquiet : reply.announce = id) :
    (reply.send cx).2.d = reply.d := by
  obtain ⟨k, room, -, -, hd⟩ := reply.send_eq cx
  rw [hd, hquiet, id, ite_self]

/-! ## Decisions -/

/-- The opcodes whose handlers do not look at the declared length. -/
def LengthIgnored (opcode : Nat) : Prop := opcode = rtdbdOpPing ∨ opcode = rtdbdOpAuditDump

instance (opcode : Nat) : Decidable (LengthIgnored opcode) :=
  inferInstanceAs (Decidable (_ ∨ _))

/-- The four handlers of one course, by opcode. -/
def managedOf (opcode : Nat) : Option Managed :=
  if opcode = rtdbdOpSetMeta then some setMeta
  else if opcode = rtdbdOpCreatePoint then some createPoint
  else if opcode = rtdbdOpDeletePoint then some deletePoint
  else if opcode = rtdbdOpRenamePoint then some renamePoint
  else none

/-- The opcodes of requests that change points or metadata. -/
def Changing (opcode : Nat) : Prop := opcode = rtdbdOpWrite ∨ (managedOf opcode).isSome

instance (opcode : Nat) : Decidable (Changing opcode) := inferInstanceAs (Decidable (_ ∨ _))

/-- The statuses of failure. -/
def Failing (status : Nat) : Prop :=
  status = rtdbdStBadRequest ∨ status = rtdbdStDenied ∨ status = rtdbdStInternal ∨
    status = rtdbdStNotFound

instance (status : Nat) : Decidable (Failing status) := inferInstanceAs (Decidable (_ ∨ _ ∨ _ ∨ _))

theorem Failing.ne_ok {status : Nat} (h : Failing status) : status ≠ rtdbdStOk := by
  rintro rfl
  revert h
  decide

/-- The payload size of the requests that change something, the selected partition
included. -/
def changeSize (opcode : Nat) : Option Nat :=
  if opcode = rtdbdOpWrite then some sizeofWriteReq
  else if opcode = rtdbdOpSelect then some sizeofWord
  else (managedOf opcode).map (·.size)

namespace RtdbdCtx

/-- The declared payload arrives. -/
def Arrived (cx : RtdbdCtx) : Prop := cx.req.payloadLen ≤ cx.sock.input.length

/-- The declared payload. -/
def payload (cx : RtdbdCtx) : List UInt8 := cx.sock.input.take cx.req.payloadLen

/-- What is left to read behind the declared payload. -/
def left (cx : RtdbdCtx) : List UInt8 := cx.sock.input.drop cx.req.payloadLen

/-- The peer is known and may change a point. -/
structure Permitted (cx : RtdbdCtx) (pid uid : Nat) (partition : UInt32) (pointId : Nat) : Prop where
  peer : cx.env.peer = some (pid, uid)
  policy : irtPolicyAllows cx.d.policy uid partition pointId = true
  conf : rtdbdConfPartitionAllowed cx.d.conf partition = true

/-- The write a request asks for. -/
def writeReq (cx : RtdbdCtx) : RtdbdWriteReq := RtdbdWriteReq.ofBytes cx.payload

/-- The partition a `SELECT` asks for. -/
def selectReq (cx : RtdbdCtx) : UInt32 := UInt32.ofNat (fieldAt cx.payload 0 4)

/-- The request asks for a change and every check of its handler passes. -/
inductive Carried (cx : RtdbdCtx) : Prop where
  | wrote (arrived : cx.Arrived) (size : cx.req.payloadLen = sizeofWriteReq)
      (opcode : cx.req.opcode = rtdbdOpWrite) {pid uid : Nat}
      (permitted : cx.Permitted pid uid cx.conn.partition cx.writeReq.pointId) (m : IndurtdbMeta)
      (h : IndurtdbH) (stores : doWrite cx.d.h cx.writeReq cx.env.wall = (.stored m, h))
  | changed (arrived : cx.Arrived) (op : Managed) (size : cx.req.payloadLen = op.size)
      (opcode : managedOf cx.req.opcode = some op) {pid uid : Nat}
      (permitted : cx.Permitted pid uid (op.partition cx.conn cx.payload) (op.pointId cx.payload))
      (h : IndurtdbH) (changes : op.change cx.payload cx.d.h = (.ok, h))
  | selected (arrived : cx.Arrived) (size : cx.req.payloadLen = sizeofWord)
      (opcode : cx.req.opcode = rtdbdOpSelect)
      (conf : rtdbdConfPartitionAllowed cx.d.conf cx.selectReq = true)

namespace Carried

variable {cx : RtdbdCtx}

theorem arrived (h : cx.Carried) : cx.Arrived := by
  cases h with
  | wrote arrived => exact arrived
  | changed arrived => exact arrived
  | selected arrived => exact arrived

/-- The handlers of the family are not those of `WRITE` and `SELECT`. -/
theorem changeSize_managed {opcode : Nat} {op : Managed} (hop : managedOf opcode = some op) :
    changeSize opcode = some op.size := by
  have hwrite : opcode ≠ rtdbdOpWrite := by
    rintro rfl
    cases hop
  have hselect : opcode ≠ rtdbdOpSelect := by
    rintro rfl
    cases hop
  rw [changeSize, if_neg hwrite, if_neg hselect, hop, Option.map_some]

theorem size (h : cx.Carried) : changeSize cx.req.opcode = some cx.req.payloadLen := by
  cases h with
  | wrote _ size opcode =>
      rw [opcode, size]
      rfl
  | changed _ op size opcode => rw [changeSize_managed opcode, size]
  | selected _ size opcode =>
      rw [opcode, size]
      rfl

theorem peer (h : cx.Carried) (hop : cx.req.opcode ≠ rtdbdOpSelect) : cx.env.peer ≠ none := by
  cases h with
  | wrote _ _ _ permitted =>
      rw [permitted.peer]
      exact Option.some_ne_none _
  | changed _ _ _ _ permitted =>
      rw [permitted.peer]
      exact Option.some_ne_none _
  | selected _ _ opcode => exact absurd opcode hop

theorem of_write (h : cx.Carried) (hop : cx.req.opcode = rtdbdOpWrite) :
    ∃ pid uid, cx.Permitted pid uid cx.conn.partition cx.writeReq.pointId ∧
      ∃ m h, doWrite cx.d.h cx.writeReq cx.env.wall = (.stored m, h) := by
  cases h with
  | wrote _ _ _ permitted m h stores => exact ⟨_, _, permitted, m, h, stores⟩
  | changed _ op _ opcode =>
      rw [hop] at opcode
      cases opcode
  | selected _ _ opcode => cases hop.symm.trans opcode

theorem of_managed (h : cx.Carried) {op : Managed} (hop : managedOf cx.req.opcode = some op) :
    ∃ pid uid, cx.Permitted pid uid (op.partition cx.conn cx.payload) (op.pointId cx.payload) ∧
      ∃ h, op.change cx.payload cx.d.h = (.ok, h) := by
  cases h with
  | wrote _ _ opcode =>
      rw [opcode] at hop
      cases hop
  | changed _ op' _ opcode permitted h changes =>
      obtain rfl := Option.some.inj (hop.symm.trans opcode)
      exact ⟨_, _, permitted, h, changes⟩
  | selected _ _ opcode =>
      rw [opcode] at hop
      cases hop

theorem of_select (h : cx.Carried) (hop : cx.req.opcode = rtdbdOpSelect) :
    rtdbdConfPartitionAllowed cx.d.conf cx.selectReq = true := by
  cases h with
  | wrote _ _ opcode => cases hop.symm.trans opcode
  | changed _ op _ opcode =>
      rw [hop] at opcode
      cases opcode
  | selected _ _ _ conf => exact conf

end Carried

/-- A request that asks for no change does not carry one out. -/
theorem not_carried {cx : RtdbdCtx} (h : changeSize cx.req.opcode = none) : ¬ cx.Carried := by
  intro hcarried
  cases h.symm.trans hcarried.size

end RtdbdCtx

/-- The decisions a handler can take on a request. -/
inductive Decided (cx : RtdbdCtx) : Reply → Prop where
  /-- the request is not understood, or the peer is unknown -/
  | refused (st : RtdbdStats) (writes : st.nWrites = cx.d.stats.nWrites) (input : List UInt8)
      (status : Nat) (failure : Failing status) (undone : ¬ cx.Carried) :
      Decided cx ⟨{ cx.d with stats := st }, input, status, [], true, id⟩
  /-- `op_ping` and `op_audit_dump` -/
  | ignoring (opcode : LengthIgnored cx.req.opcode) (payload : List UInt8)
      (short : payload.length < 2 ^ 32) :
      Decided cx ⟨cx.d, cx.sock.input, rtdbdStOk, payload, false, id⟩
  /-- a request for information, or one that is turned down -/
  | answered (arrived : cx.Arrived) (reads : ¬ LengthIgnored cx.req.opcode) (st : RtdbdStats)
      (writes : st.nWrites = cx.d.stats.nWrites) (status : Nat) (payload : List UInt8)
      (short : payload.length < 2 ^ 32)
      (failure : changeSize cx.req.opcode ≠ none → Failing status) (undone : ¬ cx.Carried) :
      Decided cx ⟨{ cx.d with stats := st }, cx.left, status, payload, false, id⟩
  | subscribed (arrived : cx.Arrived)
      (opcode : cx.req.opcode = rtdbdOpSubscribe ∨ cx.req.opcode = rtdbdOpUnsubscribe)
      (subs : List Nat) (rbe : RbeState) (status : Nat) :
      Decided cx ⟨(cx.setConn { cx.conn with subs := subs, rbe := rbe }).d, cx.left, status, [],
        false, id⟩
  | selected (arrived : cx.Arrived) (size : cx.req.payloadLen = sizeofWord)
      (opcode : cx.req.opcode = rtdbdOpSelect)
      (conf : rtdbdConfPartitionAllowed cx.d.conf cx.selectReq = true) :
      Decided cx ⟨(cx.setConn { cx.conn with partition := cx.selectReq }).d, cx.left, rtdbdStOk, [],
        false, id⟩
  | wrote (arrived : cx.Arrived) (size : cx.req.payloadLen = sizeofWriteReq)
      (opcode : cx.req.opcode = rtdbdOpWrite) {pid uid : Nat}
      (permitted : cx.Permitted pid uid cx.conn.partition cx.writeReq.pointId) (m : IndurtdbMeta)
      (h : IndurtdbH) (stores : doWrite cx.d.h cx.writeReq cx.env.wall = (.stored m, h)) :
      Decided cx ⟨(RtdbdCtx.wrote { cx with d := { cx.d with h := h } } pid uid cx.conn.partition
          cx.writeReq.pointId).d, cx.left, rtdbdStOk, [], false,
        fun d => notifyBroadcast d cx.writeReq m cx.env.now⟩
  | writeFailed (arrived : cx.Arrived) (opcode : cx.req.opcode = rtdbdOpWrite) {pid uid : Nat}
      (permitted : cx.Permitted pid uid cx.conn.partition cx.writeReq.pointId) (h : IndurtdbH)
      (st : RtdbdStats) (writes : st.nWrites = cx.d.stats.nWrites) (status : Nat)
      (failure : Failing status)
      (fails : ∀ m, (doWrite cx.d.h cx.writeReq cx.env.wall).1 ≠ .stored m)
      (leaves : (doWrite cx.d.h cx.writeReq cx.env.wall).2 = h) :
      Decided cx ⟨{ cx.d with h := h, stats := st }, cx.left, status, [], false, id⟩
  | changed (arrived : cx.Arrived) (op : Managed) (size : cx.req.payloadLen = op.size)
      (opcode : managedOf cx.req.opcode = some op) {pid uid : Nat}
      (permitted : cx.Permitted pid uid (op.partition cx.conn cx.payload) (op.pointId cx.payload))
      (h : IndurtdbH) (changes : op.change cx.payload cx.d.h = (.ok, h)) :
      Decided cx ⟨(RtdbdCtx.logged (RtdbdCtx.audited { cx with d := { cx.d with h := h } } pid uid
          (op.partition cx.conn cx.payload) (op.pointId cx.payload)) (op.log cx.payload uid)).d,
        cx.left, rtdbdStOk, [], false, id⟩
  | changeFailed (arrived : cx.Arrived) (op : Managed)
      (opcode : managedOf cx.req.opcode = some op) {pid uid : Nat}
      (permitted : cx.Permitted pid uid (op.partition cx.conn cx.payload) (op.pointId cx.payload))
      (rc : Rc) (h : IndurtdbH) (changes : op.change cx.payload cx.d.h = (rc, h))
      (fails : rc ≠ .ok) (failure : Failing (op.status rc)) :
      Decided cx ⟨{ cx.d with h := h }, cx.left, op.status rc, [], false, id⟩

/-- A handler's result is a decision carried out. -/
def Settles (cx : RtdbdCtx) (r : Fate × RtdbdCtx) : Prop :=
  ∃ reply, Decided cx reply ∧ r = reply.send cx

/-! ## Steps of the handlers -/

namespace Settles

variable {cx : RtdbdCtx}

theorem refuse {status : Nat} (failure : Failing status) (undone : ¬ cx.Carried) :
    Settles cx (cx.refuse status) :=
  ⟨_, .refused cx.d.stats rfl cx.sock.input status failure undone, rfl⟩

/-- A response behind which nothing is left to do. -/
theorem respond {d : Rtdbd} {input : List UInt8} {status : Nat} {payload : List UInt8}
    (decided : Decided cx ⟨d, input, status, payload, false, id⟩) :
    Settles cx (RtdbdCtx.respond { cx with d := d, sock := { cx.sock with input := input } }
      status payload) := by
  refine ⟨_, decided, ?_⟩
  unfold Reply.send
  simp only [Bool.false_eq_true, if_false]
  split
  next h => exact h
  next h => exact h

/-- A response behind which a write is broadcast. -/
theorem respondAndBroadcast {d : Rtdbd} {input : List UInt8} {w : RtdbdWriteReq}
    {m : IndurtdbMeta}
    (decided : Decided cx ⟨d, input, rtdbdStOk, [], false,
      fun d => notifyBroadcast d w m cx.env.now⟩) :
    Settles cx (RtdbdCtx.respondAndBroadcast
      { cx with d := d, sock := { cx.sock with input := input } } w m) := by
  refine ⟨_, decided, ?_⟩
  have henv := respond_env { cx with d := d, sock := { cx.sock with input := input } } rtdbdStOk []
  unfold Reply.send RtdbdCtx.respondAndBroadcast
  simp only [Bool.false_eq_true, if_false]
  generalize RtdbdCtx.respond { cx with d := d, sock := { cx.sock with input := input } }
    rtdbdStOk [] = sent at henv ⊢
  obtain ⟨fate, cx'⟩ := sent
  cases fate with
  | close => rfl
  | keep =>
      have henv : cx'.env = cx.env := henv
      simp only [henv]

/-- A handler that reads a payload is settled if what follows is. -/
theorem withPayload {size : Nat} {k : List UInt8 → Handler}
    (hsize : changeSize cx.req.opcode = none ∨ changeSize cx.req.opcode = some size)
    (h : cx.Arrived → cx.req.payloadLen = size →
      Settles cx (k cx.payload { cx with sock := { cx.sock with input := cx.left } })) :
    Settles cx (cx.withPayload size k) := by
  unfold RtdbdCtx.withPayload
  split
  next hne =>
    refine refuse (by decide) fun hcarried => ?_
    rw [hcarried.size] at hsize
    rcases hsize with hnone | hsome
    · cases hnone
    · exact hne (Option.some.inj hsome)
  next heq =>
    obtain rfl : cx.req.payloadLen = size := Decidable.of_not_not heq
    unfold Socket.recvAll
    rcases Nat.lt_or_ge cx.sock.input.length cx.req.payloadLen with hshort | hlong
    · rw [if_neg (by omega)]
      have hundone : ¬ cx.Carried := fun hcarried => Nat.not_le.mpr hshort hcarried.arrived
      exact ⟨_, .refused cx.d.stats rfl [] rtdbdStBadRequest (by decide) hundone, rfl⟩
    · rw [if_pos hlong]
      exact h hlong rfl

/-- A handler that asks for the peer is settled if what follows is. -/
theorem withPeer {input : List UInt8} {k : Nat → Nat → Handler}
    (hop : cx.req.opcode ≠ rtdbdOpSelect)
    (h : ∀ pid uid, cx.env.peer = some (pid, uid) →
      Settles cx (k pid uid { cx with sock := { cx.sock with input := input } })) :
    Settles cx (RtdbdCtx.withPeer { cx with sock := { cx.sock with input := input } } k) := by
  unfold RtdbdCtx.withPeer
  split
  next hnone =>
    have hundone : ¬ cx.Carried := fun hcarried => hcarried.peer hop hnone
    exact ⟨_, .refused cx.d.stats rfl input rtdbdStInternal (by decide) hundone, rfl⟩
  next pid uid hpeer => exact h pid uid hpeer

end Settles

/-! ## Payload lengths -/

theorem length_flatMap_of_const {α : Type} {f : α → List UInt8} {n : Nat} (l : List α)
    (h : ∀ a, (f a).length = n) : (l.flatMap f).length = l.length * n := by
  induction l with
  | nil => rw [List.flatMap_nil, List.length_nil, List.length_nil, Nat.zero_mul]
  | cons a l ih =>
      rw [List.flatMap_cons, List.length_append, h, ih, List.length_cons, Nat.succ_mul,
        Nat.add_comm]

theorem length_irtAuditDump_le (a : IrtAudit) (cap : Nat) : (irtAuditDump a cap).length ≤ cap := by
  simp only [irtAuditDump, Lib.length_ringList]
  split <;> omega

theorem length_irtLogbufDump_le (b : IrtLogbuf) (cap : Nat) :
    (irtLogbufDump b cap).length ≤ cap := by
  simp only [irtLogbufDump, Lib.length_ringList]
  split <;> omega

/-- A list of points has no more entries than there is room for. -/
theorem length_listLoop_le (h : IndurtdbH) (filter : UInt32) (n : Nat) :
    ∀ id room, (listLoop h filter n id room).length ≤ room * sizeofPointInfo := by
  induction n with
  | zero => intro id room; exact Nat.zero_le _
  | succ n ih =>
      intro id room
      cases room with
      | zero => exact Nat.zero_le _
      | succ room =>
          unfold listLoop
          split
          · exact ih _ _
          · split
            · exact ih _ _
            · split
              · exact ih _ _
              · have hrest := ih (id + 1) room
                rw [List.length_append, length_pointInfoBytes, Nat.succ_mul, Nat.add_comm]
                exact Nat.add_le_add_right hrest _

theorem length_doList_le (d : Rtdbd) (filter : UInt32) (maxN offset : Nat) :
    (doList d filter maxN offset).length ≤ rtdbdListChunk * sizeofPointInfo := by
  unfold doList
  refine Nat.le_trans (length_listLoop_le _ _ _ _ _) (Nat.mul_le_mul_right _ ?_)
  generalize (if maxN = 0 then rtdbdListChunk else maxN) = cap
  split
  · exact Nat.le_refl _
  next hle => exact Nat.le_of_not_lt hle

/-- The audit ring fits in one response. -/
theorem length_auditBytes_lt (a : IrtAudit) :
    ((irtAuditDump a rtdbdAuditCapacity).flatMap RtdbdAuditEntry.toBytes).length < 2 ^ 32 := by
  rw [length_flatMap_of_const _ RtdbdAuditEntry.length_toBytes]
  have hbound := Nat.mul_le_mul_right sizeofAuditEntry (length_irtAuditDump_le a rtdbdAuditCapacity)
  exact Nat.lt_of_le_of_lt hbound (by decide)

theorem length_logBytes_lt {b : IrtLogbuf} {cap : Nat} (hcap : cap ≤ rtdbdLogCapacity) :
    ((irtLogbufDump b cap).flatMap RtdbdLogEntry.toBytes).length < 2 ^ 32 := by
  rw [length_flatMap_of_const _ RtdbdLogEntry.length_toBytes]
  have hbound := Nat.mul_le_mul_right sizeofLogEntry
    (Nat.le_trans (length_irtLogbufDump_le b cap) hcap)
  exact Nat.lt_of_le_of_lt hbound (by decide)

/-! ## The handlers -/

/-- A handler, entered under one of its opcodes, settles the request. -/
def Settling (opcode : Nat) (op : Handler) : Prop :=
  ∀ cx, cx.req.opcode = opcode → Settles cx (op cx)

/-- The opcodes of requests for information that have a payload length to check. -/
def Informing (opcode : Nat) : Prop := ¬ LengthIgnored opcode ∧ changeSize opcode = none

instance (opcode : Nat) : Decidable (Informing opcode) := inferInstanceAs (Decidable (_ ∧ _))

/-- The answer to a request that asks for information. -/
theorem Settles.inform {cx : RtdbdCtx} {status : Nat} {payload : List UInt8} (arrived : cx.Arrived)
    (short : payload.length < 2 ^ 32) (reading : Informing cx.req.opcode) :
    Settles cx (RtdbdCtx.respond { cx with sock := { cx.sock with input := cx.left } }
      status payload) :=
  .respond (.answered arrived reading.1 cx.d.stats rfl status payload short
    (fun h => absurd reading.2 h) (RtdbdCtx.not_carried reading.2))

/-- The answer to a request whose length is ignored. -/
theorem Settles.ignore {cx : RtdbdCtx} {payload : List UInt8} (opcode : LengthIgnored cx.req.opcode)
    (short : payload.length < 2 ^ 32) : Settles cx (cx.respond rtdbdStOk payload) := by
  have hdecided : Decided cx ⟨cx.d, cx.sock.input, rtdbdStOk, payload, false, id⟩ :=
    .ignoring opcode payload short
  exact .respond hdecided

theorem opPing_settling : Settling rtdbdOpPing opPing := fun _ hop =>
  .ignore (.inl hop) (by decide)

theorem opAuditDump_settling : Settling rtdbdOpAuditDump opAuditDump := fun cx hop =>
  .ignore (.inr hop) (length_auditBytes_lt cx.d.audit)

theorem opFindByName_settling : Settling rtdbdOpFindByName opFindByName := by
  intro cx hop
  have hreading : Informing cx.req.opcode := by
    rw [hop]
    decide
  refine .withPayload (.inl hreading.2) fun harrived _ => ?_
  dsimp only
  split
  · exact .inform harrived (by decide) hreading
  · split
    · exact .inform harrived (by decide) hreading
    · exact .inform harrived (by decide) hreading
    · exact .inform harrived (by simp) hreading

theorem opGetMeta_settling : Settling rtdbdOpGetMeta opGetMeta := by
  intro cx hop
  have hreading : Informing cx.req.opcode := by
    rw [hop]
    decide
  refine .withPayload (.inl hreading.2) fun harrived _ => ?_
  split
  · exact .inform harrived (by decide) hreading
  · exact .inform harrived (by decide) hreading
  · exact .inform harrived (by decide) hreading
  · exact .inform harrived (by simp) hreading

theorem opGet_settling : Settling rtdbdOpGet opGet := by
  intro cx hop
  have hreading : Informing cx.req.opcode := by
    rw [hop]
    decide
  refine .withPayload (.inl hreading.2) fun harrived _ => ?_
  split
  next => exact .inform harrived (by decide) hreading
  next payload hget =>
    refine .inform harrived ?_ hreading
    unfold doGet at hget
    split at hget
    · cases hget
    · split at hget
      · cases hget
      · obtain rfl := Option.some.inj hget
        simp

theorem opList_settling : Settling rtdbdOpList opList := by
  intro cx hop
  have hreading : Informing cx.req.opcode := by
    rw [hop]
    decide
  refine .withPayload (.inl hreading.2) fun harrived _ => ?_
  dsimp only
  split
  · exact .inform harrived (by decide) hreading
  · exact .inform harrived (Nat.lt_of_le_of_lt (length_doList_le _ _ _ _) (by decide)) hreading

theorem opGetLog_settling : Settling rtdbdOpGetLog opGetLog := by
  intro cx hop
  have hreading : Informing cx.req.opcode := by
    rw [hop]
    decide
  refine .withPayload (.inl hreading.2) fun harrived _ =>
    .inform harrived (length_logBytes_lt ?_) hreading
  split
  · exact Nat.le_refl _
  next hcap => exact Nat.le_of_not_lt (not_or.mp hcap).2

theorem opHealth_settling : Settling rtdbdOpHealth opHealth := by
  intro cx hop
  have hreading : Informing cx.req.opcode := by
    rw [hop]
    decide
  unfold opHealth
  split
  next =>
    exact ⟨_, .refused ({ cx.d.stats with
      decodeFail := cx.d.stats.decodeFail + 1 }.noteError cx.env.now) rfl cx.sock.input
      rtdbdStBadRequest (by decide) (RtdbdCtx.not_carried hreading.2), rfl⟩
  next hzero =>
    have hlen : cx.req.payloadLen = 0 := Decidable.of_not_not hzero
    have hleft : cx.left = cx.sock.input := by
      rw [RtdbdCtx.left, hlen, List.drop_zero]
    have harrived : cx.Arrived := by
      rw [RtdbdCtx.Arrived, hlen]
      exact Nat.zero_le _
    have hsame : cx = { cx with sock := { cx.sock with input := cx.left } } := by
      rw [hleft]
    conv => arg 2; rw [hsame]
    exact .inform harrived (by simp) hreading

/-- Subscribing changes the table of subscriptions only. -/
theorem addSub_eq (c : RtdbdConn) (pointId : Nat) :
    ∃ subs, (c.addSub pointId).2 = { c with subs := subs, rbe := c.rbe } := by
  unfold RtdbdConn.addSub
  split
  · exact ⟨c.subs, rfl⟩
  · split
    · exact ⟨c.subs, rfl⟩
    · exact ⟨c.subs ++ [pointId], rfl⟩

/-- Unsubscribing changes the subscriptions and the state of report-by-exception. -/
theorem delSub_eq (c : RtdbdConn) (pointId : Nat) :
    ∃ subs, c.delSub pointId = { c with subs := subs, rbe := c.rbe.clear pointId } := by
  unfold RtdbdConn.delSub
  dsimp only
  split
  · exact ⟨c.subs, rfl⟩
  next i _ => exact ⟨(c.subs.set i (c.subs.getLast?.getD 0)).dropLast, rfl⟩

theorem opSubscribe_settling {opcode : Nat}
    (hcode : opcode = rtdbdOpSubscribe ∨ opcode = rtdbdOpUnsubscribe) :
    Settling opcode opSubscribe := by
  intro cx hop
  rw [← hop] at hcode
  have hsize : changeSize cx.req.opcode = none := by
    rcases hcode with heq | heq
    · rw [heq]
      rfl
    · rw [heq]
      rfl
  refine .withPayload (.inl hsize) fun harrived _ => ?_
  dsimp only
  split
  next =>
    obtain ⟨subs, hsubs⟩ := addSub_eq cx.conn (fieldAt cx.payload 0 4)
    split
    next c hadd =>
      obtain rfl : c = { cx.conn with subs := subs, rbe := cx.conn.rbe } :=
        (congrArg Prod.snd hadd).symm.trans hsubs
      exact .respond (.subscribed harrived hcode subs cx.conn.rbe rtdbdStOk)
    next c hadd =>
      obtain rfl : c = { cx.conn with subs := subs, rbe := cx.conn.rbe } :=
        (congrArg Prod.snd hadd).symm.trans hsubs
      exact .respond (.subscribed harrived hcode subs cx.conn.rbe rtdbdStInternal)
  next =>
    obtain ⟨subs, hsubs⟩ := delSub_eq cx.conn (fieldAt cx.payload 0 4)
    have hsettles := Settles.respond (.subscribed harrived hcode subs
      (cx.conn.rbe.clear (fieldAt cx.payload 0 4)) rtdbdStOk)
    rw [← hsubs] at hsettles
    exact hsettles

theorem not_of_bnot {b : Bool} (h : (!b) = true) : ¬ b = true := by
  simpa using h

theorem of_not_bnot {b : Bool} (h : ¬ (!b) = true) : b = true := by
  simpa using h

theorem opSelect_settling : Settling rtdbdOpSelect opSelect := by
  intro cx hop
  have hreads : ¬ LengthIgnored cx.req.opcode := by
    rw [hop]
    decide
  have hsize : changeSize cx.req.opcode = some sizeofWord := by
    rw [hop]
    rfl
  refine .withPayload (.inr hsize) fun harrived hlen => ?_
  dsimp only
  split
  next hconf =>
    have hundone : ¬ cx.Carried := by
      intro hcarried
      have hallowed := hcarried.of_select hop
      rw [RtdbdCtx.selectReq] at hallowed
      rw [hallowed] at hconf
      cases hconf
    exact .respond (.answered harrived hreads cx.d.stats rfl rtdbdStDenied [] (by decide)
      (fun _ => by decide) hundone)
  next hconf => exact .respond (.selected harrived hlen hop (of_not_bnot hconf))

theorem opWrite_settling : Settling rtdbdOpWrite opWrite := by
  intro cx hop
  have hreads : ¬ LengthIgnored cx.req.opcode := by
    rw [hop]
    decide
  have hsize : changeSize cx.req.opcode = some sizeofWriteReq := by
    rw [hop]
    rfl
  have hselect : cx.req.opcode ≠ rtdbdOpSelect := by
    rw [hop]
    decide
  refine .withPayload (.inr hsize) fun harrived hlen =>
    .withPeer hselect fun pid uid hpeer => ?_
  have hdenied : ∀ st : RtdbdStats, st.nWrites = cx.d.stats.nWrites →
      ¬ cx.Permitted pid uid cx.conn.partition cx.writeReq.pointId →
      Settles cx (RtdbdCtx.respond
        { cx with d := { cx.d with stats := st }, sock := { cx.sock with input := cx.left } }
        rtdbdStDenied []) := by
    intro st hwrites hnot
    have hundone : ¬ cx.Carried := by
      intro hcarried
      obtain ⟨pid', uid', hpermitted, -⟩ := hcarried.of_write hop
      obtain ⟨rfl, rfl⟩ := Prod.mk.inj (Option.some.inj (hpeer.symm.trans hpermitted.peer))
      exact hnot hpermitted
    exact .respond (.answered harrived hreads st hwrites rtdbdStDenied [] (by decide)
      (fun _ => by decide) hundone)
  dsimp only
  split
  next hpolicy => exact hdenied _ rfl fun hpermitted => not_of_bnot hpolicy hpermitted.policy
  next hpolicy =>
    split
    next hconf => exact hdenied _ rfl fun hpermitted => not_of_bnot hconf hpermitted.conf
    next hconf =>
      have hpermitted : cx.Permitted pid uid cx.conn.partition cx.writeReq.pointId :=
        ⟨hpeer, of_not_bnot hpolicy, of_not_bnot hconf⟩
      split
      next h hwrite =>
        have hfails : ∀ m, (doWrite cx.d.h cx.writeReq cx.env.wall).1 ≠ .stored m := by
          intro m hstored
          cases (congrArg Prod.fst hwrite).symm.trans hstored
        exact .respond (.writeFailed harrived hop hpermitted h cx.d.stats rfl rtdbdStBadRequest
          (by decide) hfails (congrArg Prod.snd hwrite))
      next rc h hwrite =>
        have hfails : ∀ m, (doWrite cx.d.h cx.writeReq cx.env.wall).1 ≠ .stored m := by
          intro m hstored
          cases (congrArg Prod.fst hwrite).symm.trans hstored
        exact .respond (.writeFailed harrived hop hpermitted h ({ cx.d.stats with
          writeError := cx.d.stats.writeError + 1 }.noteError cx.env.now) rfl rtdbdStInternal
          (by decide) hfails (congrArg Prod.snd hwrite))
      next m h hwrite =>
        exact .respondAndBroadcast (.wrote harrived hlen hop hpermitted m h hwrite)

theorem statusOfNaming_failing {rc : Rc} (hrc : rc ≠ .ok) : Failing (statusOfNaming rc) := by
  cases rc with
  | ok => exact absurd rfl hrc
  | _ => decide

theorem statusOfChange_failing {rc : Rc} (hrc : rc ≠ .ok) : Failing (statusOfChange rc) := by
  cases rc with
  | ok => exact absurd rfl hrc
  | _ => decide

/-- No handler of the family answers a failure with success. -/
theorem status_failing {opcode : Nat} {op : Managed} (hop : managedOf opcode = some op) {rc : Rc}
    (hrc : rc ≠ .ok) : Failing (op.status rc) := by
  unfold managedOf at hop
  split at hop
  · obtain rfl := Option.some.inj hop
    exact statusOfChange_failing hrc
  · split at hop
    · obtain rfl := Option.some.inj hop
      exact statusOfNaming_failing hrc
    · split at hop
      · obtain rfl := Option.some.inj hop
        exact statusOfChange_failing hrc
      · split at hop
        · obtain rfl := Option.some.inj hop
          exact statusOfNaming_failing hrc
        · cases hop

theorem managedOf_reads {opcode : Nat} {op : Managed} (hop : managedOf opcode = some op) :
    ¬ LengthIgnored opcode := by
  intro hignored
  rcases hignored with rfl | rfl
  · cases hop
  · cases hop

theorem opManaged_settling {opcode : Nat} {op : Managed} (hcode : managedOf opcode = some op) :
    Settling opcode (opManaged op) := by
  intro cx hop
  rw [← hop] at hcode
  have hselect : cx.req.opcode ≠ rtdbdOpSelect := by
    intro heq
    rw [heq] at hcode
    cases hcode
  refine .withPayload (.inr (RtdbdCtx.Carried.changeSize_managed hcode)) fun harrived hlen =>
    .withPeer hselect fun pid uid hpeer => ?_
  have hdenied : ¬ cx.Permitted pid uid (op.partition cx.conn cx.payload)
      (op.pointId cx.payload) →
      Settles cx (RtdbdCtx.respond { cx with sock := { cx.sock with input := cx.left } }
        rtdbdStDenied []) := by
    intro hnot
    have hundone : ¬ cx.Carried := by
      intro hcarried
      obtain ⟨pid', uid', hpermitted, -⟩ := hcarried.of_managed hcode
      obtain ⟨rfl, rfl⟩ := Prod.mk.inj (Option.some.inj (hpeer.symm.trans hpermitted.peer))
      exact hnot hpermitted
    exact .respond (.answered harrived (managedOf_reads hcode) cx.d.stats rfl rtdbdStDenied []
      (by decide) (fun _ => by decide) hundone)
  dsimp only
  split
  next hpolicy => exact hdenied fun hpermitted => not_of_bnot hpolicy hpermitted.policy
  next hpolicy =>
    split
    next hconf => exact hdenied fun hpermitted => not_of_bnot hconf hpermitted.conf
    next hconf =>
      have hpermitted : cx.Permitted pid uid (op.partition cx.conn cx.payload)
          (op.pointId cx.payload) := ⟨hpeer, of_not_bnot hpolicy, of_not_bnot hconf⟩
      split
      next h hchange =>
        have hsettles := Settles.respond (.changed harrived op hlen hcode hpermitted h hchange)
        revert hsettles
        cases op.log cx.payload uid with
        | none => exact id
        | some text => exact id
      next rc h hok hchange =>
        exact .respond (.changeFailed harrived op hcode hpermitted rc h hchange hok
          (status_failing hcode hok))

/-- Every entry of the table settles the requests it is entered for. -/
theorem kOps_settling : ∀ op ∈ kOps, Settling op.1 op.2 := by
  unfold kOps
  simp only [List.forall_mem_cons]
  exact ⟨opPing_settling, opWrite_settling, opSubscribe_settling (.inl rfl),
    opSubscribe_settling (.inr rfl), opAuditDump_settling, opFindByName_settling,
    opGetMeta_settling, opManaged_settling rfl, opManaged_settling rfl, opManaged_settling rfl,
    opManaged_settling rfl, opGet_settling, opList_settling, opGetLog_settling,
    opHealth_settling, opSelect_settling, fun _ hop => absurd hop List.not_mem_nil⟩

/-- The handler an opcode is entered for. -/
theorem dispatch_of_entry {opcode : Nat} {op : Handler}
    (hentry : kOps.find? (fun entry => entry.1 == opcode) = some (opcode, op)) {cx : RtdbdCtx}
    (hop : cx.req.opcode = opcode) : dispatch cx = op cx := by
  unfold dispatch
  rw [hop, hentry]

/-- What any request comes to. -/
theorem dispatch_settles (cx : RtdbdCtx) : Settles cx (dispatch cx) := by
  unfold dispatch
  split
  next op hfind =>
    have hmem := List.mem_of_find?_eq_some hfind
    have hcode : op.1 = cx.req.opcode := by
      simpa using List.find?_some hfind
    exact kOps_settling op hmem cx hcode.symm
  next hfind =>
    refine .refuse (by decide) (RtdbdCtx.not_carried ?_)
    have hunknown := List.find?_eq_none.mp hfind
    simp only [kOps, List.forall_mem_cons, beq_iff_eq] at hunknown
    obtain ⟨-, hwrite, -, -, -, -, -, hset, hcreate, hdelete, hrename, -, -, -, -, hselect, -⟩ :=
      hunknown
    rw [changeSize, if_neg (Ne.symm hwrite), if_neg (Ne.symm hselect), managedOf,
      if_neg (Ne.symm hset), if_neg (Ne.symm hcreate), if_neg (Ne.symm hdelete),
      if_neg (Ne.symm hrename), Option.map_none]

/-! ## Requests -/

/-- The header at the start of some bytes. -/
def headerOf (bytes : List UInt8) : RtdbdReqHdr := RtdbdReqHdr.ofBytes (bytes.take sizeofHdr)

/-- What a handler is entered with, behind the header. -/
def RtdbdCtx.ofRequest (d : Rtdbd) (slot : Nat) (sock : Socket) (env : Env) : RtdbdCtx where
  d := d
  slot := slot
  sock := { sock with input := sock.input.drop sizeofHdr }
  req := headerOf sock.input
  env := env

/-- The header of a request arrives and is recognised. -/
def HeaderArrives (input : List UInt8) : Prop :=
  sizeofHdr ≤ input.length ∧ (headerOf input).Recognised

instance (input : List UInt8) : Decidable (HeaderArrives input) :=
  inferInstanceAs (Decidable (_ ∧ _))

/-- A request without a header ends the connection. -/
theorem handleRequest_of_not_header {d : Rtdbd} {slot : Nat} {sock : Socket} {env : Env}
    (hnot : ¬ HeaderArrives sock.input) :
    ∃ st input, st.nWrites = d.stats.nWrites ∧ handleRequest d slot sock env =
      ⟨.close, { d with stats := st }, { sock with input := input }⟩ := by
  unfold handleRequest Socket.recvAll
  rcases Nat.lt_or_ge sock.input.length sizeofHdr with hshort | hlong
  · rw [if_neg (Nat.not_le.mpr hshort)]
    exact ⟨d.stats, [], rfl, rfl⟩
  · have hunknown : ¬ (RtdbdReqHdr.ofBytes (sock.input.take sizeofHdr)).Recognised :=
      fun hrec => hnot ⟨hlong, hrec⟩
    rw [if_pos hlong]
    dsimp only
    rw [if_neg hunknown]
    exact ⟨{ d.stats with decodeFail := d.stats.decodeFail + 1 }.noteError env.now,
      sock.input.drop sizeofHdr, rfl, rfl⟩

/-- A request with a header is what its handler makes of it. -/
theorem handleRequest_eq {d : Rtdbd} {slot : Nat} {sock : Socket} {env : Env}
    (harrives : HeaderArrives sock.input) :
    handleRequest d slot sock env =
      ⟨(dispatch (.ofRequest d slot sock env)).1, (dispatch (.ofRequest d slot sock env)).2.d,
        (dispatch (.ofRequest d slot sock env)).2.sock⟩ := by
  obtain ⟨hlong, hrec⟩ := harrives
  unfold handleRequest Socket.recvAll
  rw [if_pos hlong]
  dsimp only
  rw [if_pos (show (RtdbdReqHdr.ofBytes (sock.input.take sizeofHdr)).Recognised from hrec)]
  rfl

/-- A request with a header is a decision carried out. -/
theorem handleRequest_of_header {d : Rtdbd} {slot : Nat} {sock : Socket} {env : Env}
    (harrives : HeaderArrives sock.input) :
    ∃ reply, Decided (.ofRequest d slot sock env) reply ∧ handleRequest d slot sock env =
      ⟨(reply.send (.ofRequest d slot sock env)).1, (reply.send (.ofRequest d slot sock env)).2.d,
        (reply.send (.ofRequest d slot sock env)).2.sock⟩ := by
  obtain ⟨reply, decided, hdispatch⟩ := dispatch_settles (.ofRequest d slot sock env)
  refine ⟨reply, decided, ?_⟩
  rw [handleRequest_eq harrives, hdispatch]

end InduRtdb.Daemon
