/-
  Daemon/Handlers.lean --- the request handlers of the daemon.

  Source: `rtdbd/src/rtdbd.c` (`do_write`, `do_get`, `do_list`,
  `notify_broadcast`, `op_*`, `kOps`, `handle_request`) and
  `rtdbd_self_check_core` of `rtdbd/src/stats.c`.

  A handler runs to its end before anything else happens in the daemon.  Clocks
  are read once a request.  Counters grow without bound, and of `rtdbd_stats_t`
  the two fields that only a dump shows (`uptime_ns`, `health`) are computed where
  they are sent.
-/
import InduRtdb.Api.Values
import InduRtdb.Daemon.Audit
import InduRtdb.Daemon.Conn

set_option autoImplicit false

namespace InduRtdb.Daemon

open InduRtdb.Core InduRtdb.Api

abbrev rtdbdMaxClients : Nat := 32
abbrev rtdbdListChunk : Nat := 1024

/-- The state of the daemon: the instance, its tables and `g_conns`, `g_logbuf`,
`g_stats` and `g_max_points`. -/
structure Rtdbd where
  h : IndurtdbH
  policy : IrtPolicy
  audit : IrtAudit
  conns : Nat → RtdbdConn
  conf : RtdbdConf
  logbuf : IrtLogbuf
  stats : RtdbdStats
  maxPoints : Nat

/-- What a request finds outside the daemon: the answer of `peer_cred` (pid and
uid), the monotonic clock and the wall clock. -/
structure Env where
  peer : Option (Nat × Nat)
  now : Nat
  wall : Nat

/-- `rtdbd_ctx_t` and the socket.  `slot` is the place of the connection in the
table. -/
structure RtdbdCtx where
  d : Rtdbd
  slot : Nat
  sock : Socket
  req : RtdbdReqHdr
  env : Env

/-- What a handler returns: zero keeps the connection. -/
inductive Fate where
  | keep
  | close
  deriving DecidableEq

abbrev Handler : Type := RtdbdCtx → Fate × RtdbdCtx

namespace RtdbdCtx

/-- The connection the request came from. -/
def conn (cx : RtdbdCtx) : RtdbdConn := cx.d.conns cx.slot

/-- Replace the connection the request came from. -/
def setConn (cx : RtdbdCtx) (c : RtdbdConn) : RtdbdCtx :=
  { cx with d := { cx.d with conns := Function.update cx.d.conns cx.slot c } }

/-- Send a response: its header, then its payload if there is one. -/
def respond (cx : RtdbdCtx) (status : Nat) (payload : List UInt8) : Fate × RtdbdCtx :=
  match cx.sock.sendAll (hdrBytes status payload.length) with
  | (false, sock) => (.close, { cx with sock := sock })
  | (true, sock) =>
      match sock.sendAll payload with
      | (false, sock) => (.close, { cx with sock := sock })
      | (true, sock) => (.keep, { cx with sock := sock })

/-- Send a status and give the connection up. -/
def refuse (cx : RtdbdCtx) (status : Nat) : Fate × RtdbdCtx := (.close, (cx.respond status []).2)

/-- The first step of a handler: its payload has the declared length and
arrives. -/
def withPayload (cx : RtdbdCtx) (size : Nat) (k : List UInt8 → Handler) : Fate × RtdbdCtx :=
  if cx.req.payloadLen ≠ size then cx.refuse rtdbdStBadRequest
  else
    match cx.sock.recvAll size with
    | (none, sock) => RtdbdCtx.refuse { cx with sock := sock } rtdbdStBadRequest
    | (some bytes, sock) => k bytes { cx with sock := sock }

/-- The second step of a handler that changes something: `peer_cred`. -/
def withPeer (cx : RtdbdCtx) (k : Nat → Nat → Handler) : Fate × RtdbdCtx :=
  match cx.env.peer with
  | none => cx.refuse rtdbdStInternal
  | some (pid, uid) => k pid uid cx

/-- Record a change that was made. -/
def audited (cx : RtdbdCtx) (pid uid : Nat) (partition : UInt32) (pointId : Nat) : RtdbdCtx :=
  { cx with d := { cx.d with
      audit := irtAuditRecord cx.d.audit pid uid partition pointId cx.env.now } }

end RtdbdCtx

/-! ## Reading -/

/-- `op_ping`. -/
def opPing : Handler := fun cx => cx.respond rtdbdStOk []

/-- `op_audit_dump`. -/
def opAuditDump : Handler := fun cx =>
  cx.respond rtdbdStOk
    ((irtAuditDump cx.d.audit rtdbdAuditCapacity).flatMap RtdbdAuditEntry.toBytes)

/-- `op_find_by_name`. -/
def opFindByName : Handler := fun cx =>
  cx.withPayload sizeofFindReq fun bytes cx =>
    let f := RtdbdFindReq.ofBytes bytes
    if !rtdbdConfPartitionAllowed cx.d.conf f.partition then cx.respond rtdbdStNotFound []
    else
      match indurtdbHFindByNameIn cx.d.h f.partition f.name with
      | .error .errNotFound => cx.respond rtdbdStNotFound []
      | .error _ => cx.respond rtdbdStInternal []
      | .ok id => cx.respond rtdbdStOk (le32 id)

/-- `op_get_meta`. -/
def opGetMeta : Handler := fun cx =>
  cx.withPayload sizeofWord fun bytes cx =>
    match indurtdbHGetMeta cx.d.h (fieldAt bytes 0 4) with
    | .error .errNotFound => cx.respond rtdbdStNotFound []
    | .error .errArg => cx.respond rtdbdStBadRequest []
    | .error _ => cx.respond rtdbdStInternal []
    | .ok m => cx.respond rtdbdStOk (metaBytes m)

/-- `do_get`: an unregistered point is not readable. -/
def doGet (h : IndurtdbH) (id : Nat) : Option (List UInt8) :=
  match indurtdbHReadPoint h id with
  | none => none
  | some pt => if pt.name.isEmpty then none else some (getRespBytes id pt)

/-- `op_get`. -/
def opGet : Handler := fun cx =>
  cx.withPayload sizeofWord fun bytes cx =>
    match doGet cx.d.h (fieldAt bytes 0 4) with
    | none => cx.respond rtdbdStNotFound []
    | some payload => cx.respond rtdbdStOk payload

/-- The loop of `do_list`: `n` ids ahead, the first of them `id`, and `room` entries
still wanted. -/
def listLoop (h : IndurtdbH) (filter : UInt32) : Nat → Nat → Nat → List UInt8
  | 0, _, _ => []
  | _ + 1, _, 0 => []
  | n + 1, id, room + 1 =>
      match indurtdbHReadPoint h id with
      | none => listLoop h filter n (id + 1) (room + 1)
      | some pt =>
          if pt.name.isEmpty then listLoop h filter n (id + 1) (room + 1)
          else if filter ≠ rtdbdPartitionAll ∧ pt.partition ≠ filter then
            listLoop h filter n (id + 1) (room + 1)
          else pointInfoBytes id pt ++ listLoop h filter n (id + 1) room

/-- `do_list`. -/
def doList (d : Rtdbd) (filter : UInt32) (maxN offset : Nat) : List UInt8 :=
  let cap := if maxN = 0 then rtdbdListChunk else maxN
  let cap := if rtdbdListChunk < cap then rtdbdListChunk else cap
  listLoop d.h filter (d.maxPoints - offset) offset cap

/-- `op_list`. -/
def opList : Handler := fun cx =>
  cx.withPayload sizeofListReq fun bytes cx =>
    let l := RtdbdListReq.ofBytes bytes
    if l.partition ≠ rtdbdPartitionAll ∧ !rtdbdConfPartitionAllowed cx.d.conf l.partition then
      cx.respond rtdbdStOk []
    else cx.respond rtdbdStOk (doList cx.d l.partition l.max l.offset)

/-- `op_get_log`. -/
def opGetLog : Handler := fun cx =>
  cx.withPayload sizeofWord fun bytes cx =>
    let max := fieldAt bytes 0 4
    let cap := if max = 0 ∨ rtdbdLogCapacity < max then rtdbdLogCapacity else max
    cx.respond rtdbdStOk ((irtLogbufDump cx.d.logbuf cap).flatMap RtdbdLogEntry.toBytes)

abbrev rtdbdHealthOk : Nat := 0
abbrev rtdbdHealthDegraded : Nat := 1
abbrev rtdbdHealthUnhealthy : Nat := 2

/-- `classify`: an error in the last minute degrades. -/
def classify (st : RtdbdStats) (now : Nat) : Nat :=
  if st.lastErrNs = 0 then rtdbdHealthOk
  else if now < st.lastErrNs then rtdbdHealthOk
  else if 60 * 10 ^ 9 < now - st.lastErrNs then rtdbdHealthOk
  else rtdbdHealthDegraded

/-- `conn_table_check` finds the table in order. -/
def connTableCheck (conns : Nat → RtdbdConn) (n : Nat) : Bool :=
  (List.range n).all fun i =>
    decide ((conns i).subs.length ≤ rtdbdSubMax) &&
      !(decide ((conns i).fd < 0) && decide ((conns i).subs.length ≠ 0))

/-- `op_health`. -/
def opHealth : Handler := fun cx =>
  if cx.req.payloadLen ≠ 0 then
    let st := { cx.d.stats with decodeFail := cx.d.stats.decodeFail + 1 }.noteError cx.env.now
    RtdbdCtx.refuse { cx with d := { cx.d with stats := st } } rtdbdStBadRequest
  else
    let st := cx.d.stats
    let core := if indurtdbHSelfCheck cx.d.h then classify st cx.env.now else rtdbdHealthUnhealthy
    let health :=
      if core ≠ rtdbdHealthUnhealthy ∧ !connTableCheck cx.d.conns rtdbdMaxClients then
        rtdbdHealthUnhealthy
      else core
    let uptime := if st.startNs = 0 then 0 else cx.env.now - st.startNs
    let nConns := (List.range rtdbdMaxClients).countP fun i => decide (0 ≤ (cx.d.conns i).fd)
    cx.respond rtdbdStOk
      (le64 st.nWrites ++ le64 st.nNotifies ++ le64 st.decodeFail ++ le64 st.writeRejected
        ++ le64 st.writeError ++ le64 st.notifyDrop ++ le64 st.notifySendFail ++ le64 uptime
        ++ le32 health ++ le32 nConns)

/-! ## The connection itself -/

/-- `op_subscribe`, for both opcodes. -/
def opSubscribe : Handler := fun cx =>
  cx.withPayload sizeofWord fun bytes cx =>
    let pointId := fieldAt bytes 0 4
    if cx.req.opcode = rtdbdOpSubscribe then
      match cx.conn.addSub pointId with
      | (true, c) => (cx.setConn c).respond rtdbdStOk []
      | (false, c) => (cx.setConn c).respond rtdbdStInternal []
    else (cx.setConn (cx.conn.delSub pointId)).respond rtdbdStOk []

/-- `op_select`. -/
def opSelect : Handler := fun cx =>
  cx.withPayload sizeofWord fun bytes cx =>
    let p := UInt32.ofNat (fieldAt bytes 0 4)
    if !rtdbdConfPartitionAllowed cx.d.conf p then cx.respond rtdbdStDenied []
    else (cx.setConn { cx.conn with partition := p }).respond rtdbdStOk []

/-! ## Writing values -/

/-- What `do_write` returns. -/
inductive Written where
  /-- `-99`: the type cannot be written -/
  | unsupported
  | stored (m : IndurtdbMeta)
  | failed (rc : Rc)

/-- `do_write`. -/
def doWrite (h : IndurtdbH) (w : RtdbdWriteReq) (wall : Nat) : Written × IndurtdbH :=
  if w.type.toNat = indurtdbTypeString ∨ indurtdbTypeFloat < w.type.toNat then (.unsupported, h)
  else
    let m := (indurtdbHGetMeta h w.pointId).toOption
    let lim :=
      match m with
      | none => indurtdbLimitNone
      | some m =>
          indurtdbEurangeLimit (m.has indurtdbMetaFlagEur) (Float.ofBits m.eurMin)
            (Float.ofBits m.eurMax) (indurtdbValueToDouble w.type w.valueBits)
    let quality := indurtdbQualityMake indurtdbQualityGood lim
    match indurtdbHWriteQualityTs h w.pointId w.type (le64 w.valueBits.toNat) w.sourceTsNs quality
        wall with
    | (.ok, h) => (.stored (m.getD IndurtdbMeta.zero), h)
    | (rc, h) => (.failed rc, h)

/-- One turn of the loop of `notify_broadcast`. -/
def offer (nt : RtdbdNotify) (m : IndurtdbMeta) (now : Nat) (c : RtdbdConn) (st : RtdbdStats) :
    RtdbdConn × RtdbdStats :=
  if c.fd < 0 then (c, st)
  else if !c.hasSub nt.pointId then (c, st)
  else
    match rbeDecide c.rbe nt.pointId (indurtdbValueToDouble nt.type nt.valueBits) m with
    | (false, rbe) => ({ c with rbe := rbe }, st)
    | (true, rbe) =>
        let pushed := outqPush c.outq st nt now
        ({ c with rbe := rbe, outq := pushed.1 }, pushed.2)

/-- The loop of `notify_broadcast`, with `n` connections ahead. -/
def offerLoop (nt : RtdbdNotify) (m : IndurtdbMeta) (now : Nat) :
    Nat → Nat → (Nat → RtdbdConn) → RtdbdStats → (Nat → RtdbdConn) × RtdbdStats
  | 0, _, conns, st => (conns, st)
  | n + 1, i, conns, st =>
      let offered := offer nt m now (conns i) st
      offerLoop nt m now n (i + 1) (Function.update conns i offered.1) offered.2

/-- The notification of a write. -/
def notifyOf (h : IndurtdbH) (w : RtdbdWriteReq) : RtdbdNotify where
  pointId := w.pointId
  type := w.type
  valueBits := w.valueBits
  timestampNs := ((indurtdbHReadPoint h w.pointId).map (·.timestampNs)).getD 0
  sourceTsNs := w.sourceTsNs

/-- `notify_broadcast`. -/
def notifyBroadcast (d : Rtdbd) (w : RtdbdWriteReq) (m : IndurtdbMeta) (now : Nat) : Rtdbd :=
  let offered := offerLoop (notifyOf d.h w) m now rtdbdMaxClients 0 d.conns d.stats
  { d with conns := offered.1, stats := offered.2 }

/-- A write is turned down. -/
def RtdbdCtx.rejectWrite (cx : RtdbdCtx) : Fate × RtdbdCtx :=
  let st := { cx.d.stats with writeRejected := cx.d.stats.writeRejected + 1 }.noteError cx.env.now
  RtdbdCtx.respond { cx with d := { cx.d with stats := st } } rtdbdStDenied []

/-- `op_write` behind a stored value: the audit record and the counter. -/
def RtdbdCtx.wrote (cx : RtdbdCtx) (pid uid : Nat) (partition : UInt32) (pointId : Nat) :
    RtdbdCtx :=
  let cx := cx.audited pid uid partition pointId
  { cx with d := { cx.d with stats := { cx.d.stats with nWrites := cx.d.stats.nWrites + 1 } } }

/-- The end of `op_write`: the change is broadcast behind a response that was sent. -/
def RtdbdCtx.respondAndBroadcast (cx : RtdbdCtx) (w : RtdbdWriteReq) (m : IndurtdbMeta) :
    Fate × RtdbdCtx :=
  match cx.respond rtdbdStOk [] with
  | (.close, cx) => (.close, cx)
  | (.keep, cx) => (.keep, { cx with d := notifyBroadcast cx.d w m cx.env.now })

/-- `op_write`. -/
def opWrite : Handler := fun cx =>
  cx.withPayload sizeofWriteReq fun bytes cx => cx.withPeer fun pid uid cx =>
    let w := RtdbdWriteReq.ofBytes bytes
    let partition := cx.conn.partition
    if !irtPolicyAllows cx.d.policy uid partition w.pointId then cx.rejectWrite
    else if !rtdbdConfPartitionAllowed cx.d.conf partition then cx.rejectWrite
    else
      match doWrite cx.d.h w cx.env.wall with
      | (.unsupported, h) =>
          RtdbdCtx.respond { cx with d := { cx.d with h := h } } rtdbdStBadRequest []
      | (.failed _, h) =>
          let st := { cx.d.stats with writeError := cx.d.stats.writeError + 1 }.noteError cx.env.now
          RtdbdCtx.respond { cx with d := { cx.d with h := h, stats := st } } rtdbdStInternal []
      | (.stored m, h) =>
          let cx := RtdbdCtx.wrote { cx with d := { cx.d with h := h } } pid uid partition w.pointId
          cx.respondAndBroadcast w m

/-! ## Changing the registry and the metadata -/

/-- What tells the four handlers apart: the length of the payload, the partition and
the point it is about, the change, the status a code is answered with, and the line
that is logged. -/
structure Managed where
  size : Nat
  partition : RtdbdConn → List UInt8 → UInt32
  pointId : List UInt8 → Nat
  change : List UInt8 → IndurtdbH → Rc × IndurtdbH
  status : Rc → Nat
  log : List UInt8 → Nat → Option (List UInt8)

/-- `irt_logbuf_emit` at level `RTDBD_LOG_INFO`, where the handler has a line. -/
def RtdbdCtx.logged (cx : RtdbdCtx) : Option (List UInt8) → RtdbdCtx
  | none => cx
  | some text =>
      { cx with d := { cx.d with logbuf := irtLogbufEmit cx.d.logbuf 0 text cx.env.wall } }

/-- The common course of the four handlers. -/
def opManaged (op : Managed) : Handler := fun cx =>
  cx.withPayload op.size fun bytes cx => cx.withPeer fun pid uid cx =>
    let partition := op.partition cx.conn bytes
    if !irtPolicyAllows cx.d.policy uid partition (op.pointId bytes) then
      cx.respond rtdbdStDenied []
    else if !rtdbdConfPartitionAllowed cx.d.conf partition then cx.respond rtdbdStDenied []
    else
      match op.change bytes cx.d.h with
      | (.ok, h) =>
          let cx := RtdbdCtx.audited { cx with d := { cx.d with h := h } } pid uid partition
            (op.pointId bytes)
          (cx.logged (op.log bytes uid)).respond rtdbdStOk []
      | (rc, h) => RtdbdCtx.respond { cx with d := { cx.d with h := h } } (op.status rc) []

/-- The statuses of `op_create_point` and `op_rename_point`. -/
def statusOfNaming : Rc → Nat
  | .ok => rtdbdStOk
  | .errArg => rtdbdStBadRequest
  | .errFull => rtdbdStBadRequest
  | .errNotFound => rtdbdStNotFound
  | _ => rtdbdStInternal

/-- The statuses of `op_set_meta` and `op_delete_point`. -/
def statusOfChange : Rc → Nat
  | .ok => rtdbdStOk
  | .errArg => rtdbdStBadRequest
  | .errNotFound => rtdbdStNotFound
  | _ => rtdbdStInternal

/-- What `op_set_meta` does its own way. -/
def setMeta : Managed where
  size := sizeofSetMetaReq
  partition := fun conn _ => conn.partition
  pointId := fun bytes => (RtdbdSetMetaReq.ofBytes bytes).pointId
  change := fun bytes h =>
    let s := RtdbdSetMetaReq.ofBytes bytes
    indurtdbHSetMeta h s.pointId s.pointMeta
  status := statusOfChange
  log := fun _ _ => none

/-- `op_set_meta`.  The partition is the one selected on the connection. -/
def opSetMeta : Handler := opManaged setMeta

/-- What `op_create_point` does its own way. -/
def createPoint : Managed where
  size := sizeofCreateReq
  partition := fun _ bytes => (RtdbdCreateReq.ofBytes bytes).partition
  pointId := fun bytes => (RtdbdCreateReq.ofBytes bytes).pointId
  change := fun bytes h =>
    let c := RtdbdCreateReq.ofBytes bytes
    indurtdbHCreatePointIn h c.partition c.pointId c.name c.type.toNat c.access.toNat
  status := statusOfNaming
  log := fun bytes uid =>
    let c := RtdbdCreateReq.ofBytes bytes
    some (textBytes "create point id=" ++ decimal c.pointId ++ textBytes " name=" ++ c.name.bytes
      ++ textBytes " partition=" ++ decimal c.partition.toNat ++ textBytes " (uid="
      ++ decimal uid ++ textBytes ")")

/-- `op_create_point`. -/
def opCreatePoint : Handler := opManaged createPoint

/-- What `op_delete_point` does its own way. -/
def deletePoint : Managed where
  size := sizeofDeleteReq
  partition := fun _ bytes => (RtdbdDeleteReq.ofBytes bytes).partition
  pointId := fun bytes => (RtdbdDeleteReq.ofBytes bytes).pointId
  change := fun bytes h =>
    let d := RtdbdDeleteReq.ofBytes bytes
    indurtdbHDeletePointIn h d.partition d.pointId
  status := statusOfChange
  log := fun bytes uid =>
    let d := RtdbdDeleteReq.ofBytes bytes
    some (textBytes "delete point id=" ++ decimal d.pointId ++ textBytes " partition="
      ++ decimal d.partition.toNat ++ textBytes " (uid=" ++ decimal uid ++ textBytes ")")

/-- `op_delete_point`. -/
def opDeletePoint : Handler := opManaged deletePoint

/-- What `op_rename_point` does its own way. -/
def renamePoint : Managed where
  size := sizeofRenameReq
  partition := fun _ bytes => (RtdbdRenameReq.ofBytes bytes).partition
  pointId := fun bytes => (RtdbdRenameReq.ofBytes bytes).pointId
  change := fun bytes h =>
    let r := RtdbdRenameReq.ofBytes bytes
    indurtdbHRenamePointIn h r.partition r.pointId r.name
  status := statusOfNaming
  log := fun bytes uid =>
    let r := RtdbdRenameReq.ofBytes bytes
    some (textBytes "rename point id=" ++ decimal r.pointId ++ textBytes " -> " ++ r.name.bytes
      ++ textBytes " partition=" ++ decimal r.partition.toNat ++ textBytes " (uid="
      ++ decimal uid ++ textBytes ")")

/-- `op_rename_point`. -/
def opRenamePoint : Handler := opManaged renamePoint

/-! ## Dispatch -/

/-- `kOps`. -/
def kOps : List (Nat × Handler) :=
  [(rtdbdOpPing, opPing), (rtdbdOpWrite, opWrite), (rtdbdOpSubscribe, opSubscribe),
    (rtdbdOpUnsubscribe, opSubscribe), (rtdbdOpAuditDump, opAuditDump),
    (rtdbdOpFindByName, opFindByName), (rtdbdOpGetMeta, opGetMeta), (rtdbdOpSetMeta, opSetMeta),
    (rtdbdOpCreatePoint, opCreatePoint), (rtdbdOpDeletePoint, opDeletePoint),
    (rtdbdOpRenamePoint, opRenamePoint), (rtdbdOpGet, opGet), (rtdbdOpList, opList),
    (rtdbdOpGetLog, opGetLog), (rtdbdOpHealth, opHealth), (rtdbdOpSelect, opSelect)]

/-- The handler of an opcode; an unknown one is refused. -/
def dispatch : Handler := fun cx =>
  match kOps.find? fun op => op.1 == cx.req.opcode with
  | some op => op.2 cx
  | none => cx.refuse rtdbdStBadRequest

/-- What one request does: whether the connection stays, the daemon, the socket. -/
structure Handled where
  fate : Fate
  d : Rtdbd
  sock : Socket

/-- `handle_request`. -/
def handleRequest (d : Rtdbd) (slot : Nat) (sock : Socket) (env : Env) : Handled :=
  match sock.recvAll sizeofHdr with
  | (none, sock) => ⟨.close, d, sock⟩
  | (some bytes, sock) =>
      let req := RtdbdReqHdr.ofBytes bytes
      if req.Recognised then
        let done := dispatch ⟨d, slot, sock, req, env⟩
        ⟨done.1, done.2.d, done.2.sock⟩
      else
        let st := { d.stats with decodeFail := d.stats.decodeFail + 1 }.noteError env.now
        ⟨.close, { d with stats := st }, sock⟩

/-! ## The start of the loop -/

/-- `main` at the start of its loop: the instance is open and configured, and no
connection has been accepted. -/
def Rtdbd.start (h : IndurtdbH) (policy : IrtPolicy) (conf : RtdbdConf) (logbuf : IrtLogbuf)
    (maxPoints startNs : Nat) : Rtdbd where
  h := h
  policy := policy
  audit := irtAuditInit
  conns := fun _ => connInit
  conf := conf
  logbuf := logbuf
  stats :=
    { nWrites := 0
      nNotifies := 0
      decodeFail := 0
      writeRejected := 0
      writeError := 0
      notifyDrop := 0
      notifySendFail := 0
      startNs := startNs
      lastErrNs := 0 }
  maxPoints := maxPoints

/-- The daemon on a segment it has just created, with every partition allowed. -/
def Rtdbd.fresh (maxPoints maxSubscribers pid : Nat) (policy : IrtPolicy) : Rtdbd :=
  .start ⟨irtShmRequest maxPoints maxSubscribers, irtShmInitOwner maxPoints maxSubscribers pid,
    none⟩ policy ⟨[]⟩ ⟨fun _ => ⟨0, 0, []⟩, 0, 0⟩ maxPoints 1

end InduRtdb.Daemon
