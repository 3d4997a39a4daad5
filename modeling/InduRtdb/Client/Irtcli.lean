/-
  Client/Irtcli.lean --- the C client: its write queue and its request channel.

  Source: `client/src/client.c`, `client/include/irtcli/client.h` and the response
  header of `rtdbd/include/rtdbd/protocol.h`.

  What the client meets behind its socket is a `Line`: each `connect` and each request
  asks it, and it answers with the bytes that arrive.  A session is the client
  together with the bytes it has not read yet; it also remembers what was asked and
  from where each response header was read.  Pointers are not null, memory can be
  had, and `irtcli_close` ends a session.
-/
import InduRtdb.Daemon.Protocol
import Mathlib.Data.List.Basic

set_option autoImplicit false

namespace InduRtdb.Client

open InduRtdb.Core InduRtdb.Daemon

/-! ## Constants -/

/-- The return codes `IRTCLI_*`. -/
inductive IrtcliRc where
  | ok
  | queued
  | errArg
  | errFull
  | errIo
  | errDenied
  | errProto
  | errNotFound
  deriving DecidableEq

abbrev irtcliQueueCapDefault : Nat := 256
abbrev irtcliQueueCapMax : Nat := 4096
abbrev irtcliSockPathMax : Nat := 108

abbrev irtcliTypeBool : UInt8 := 0
abbrev irtcliTypeInt32 : UInt8 := 1
abbrev irtcliTypeDouble : UInt8 := 2

/-! ## The write queue -/

/-- `irtcli_entry_t`. -/
structure IrtcliEntry where
  pointId : UInt32
  type : UInt8
  valueBits : UInt64
  sourceTsNs : UInt64
  deriving DecidableEq, Inhabited

/-- The fields `queue`, `cap`, `head` and `count` of `irtcli_t`. -/
structure WriteQueue where
  buf : Nat → IrtcliEntry
  cap : Nat
  head : Nat
  count : Nat
  head_lt : head < cap
  count_le : count ≤ cap
  cap_le : cap ≤ irtcliQueueCapMax

namespace WriteQueue

/-- The place of the oldest entry. -/
def first (q : WriteQueue) : Nat := (q.head + q.cap - q.count) % q.cap

/-- The loop of `q_push`, with `n` entries ahead: the place of the point's entry. -/
def findLoop (q : WriteQueue) (pointId : UInt32) : Nat → Nat → Option Nat
  | 0, _ => none
  | n + 1, i =>
      let place := (q.first + i) % q.cap
      if (q.buf place).pointId = pointId then some place else q.findLoop pointId n (i + 1)

/-- `q_push`; `none` is `IRTCLI_ERR_FULL`. -/
def push (q : WriteQueue) (e : IrtcliEntry) : Option WriteQueue :=
  match q.findLoop e.pointId q.count 0 with
  | some place => some { q with buf := Function.update q.buf place e }
  | none =>
      if hfull : q.cap ≤ q.count then none
      else
        some
          { q with
            buf := Function.update q.buf q.head e
            head := (q.head + 1) % q.cap
            count := q.count + 1
            head_lt := Nat.mod_lt _ (Nat.zero_lt_of_lt q.head_lt)
            count_le := Nat.lt_of_not_le hfull }

/-- `q_pop`. -/
def pop (q : WriteQueue) : Option (IrtcliEntry × WriteQueue) :=
  if q.count = 0 then none
  else
    some (q.buf q.first,
      { q with count := q.count - 1, count_le := Nat.le_trans (Nat.sub_le _ _) q.count_le })

/-- `c->count++` of `irtcli_flush`, behind a `q_pop`. -/
def restore (q : WriteQueue) : WriteQueue :=
  if hroom : q.count < q.cap then { q with count := q.count + 1, count_le := hroom } else q

end WriteQueue

/-! ## The client -/

/-- `irtcli_t`, less the callback. -/
structure Irtcli where
  fd : Int
  connected : Bool
  sockPath : CStr
  queue : WriteQueue
  async : Bool
  partition : UInt32
  sockPath_lt : sockPath.bytes.length < irtcliSockPathMax
  /-- Without a descriptor there is no connection. -/
  fd_nonneg : connected = true → 0 ≤ fd

/-- `irtcli_init`. -/
def irtcliInit (sockPath : CStr) (cap : Nat) : Except IrtcliRc Irtcli :=
  let realCap := if cap = 0 then irtcliQueueCapDefault else cap
  if hcap : irtcliQueueCapMax < realCap then .error .errArg
  else if hlong : irtcliSockPathMax ≤ sockPath.bytes.length then .error .errArg
  else
    .ok
      { fd := -1
        connected := false
        sockPath := sockPath
        queue :=
          { buf := fun _ => default
            cap := realCap
            head := 0
            count := 0
            head_lt := by
              dsimp only [realCap]
              split
              · decide
              · exact Nat.pos_of_ne_zero ‹_›
            count_le := Nat.zero_le _
            cap_le := Nat.le_of_not_lt hcap }
        async := true
        partition := 0
        sockPath_lt := Nat.lt_of_not_le hlong
        fd_nonneg := fun h => by cases h }

/-! ## Frames -/

/-- `rtdbd_resp_hdr_t`. -/
structure RtdbdRespHdr where
  magic : Nat
  version : Nat
  status : Nat
  payloadLen : Nat
  deriving DecidableEq

/-- Twelve bytes read as a response header. -/
def RtdbdRespHdr.ofBytes (bytes : List UInt8) : RtdbdRespHdr where
  magic := fieldAt bytes 0 4
  version := fieldAt bytes 4 2
  status := fieldAt bytes 6 2
  payloadLen := fieldAt bytes 8 4

/-- The check of magic and version passes. -/
def RtdbdRespHdr.Recognised (resp : RtdbdRespHdr) : Prop :=
  resp.magic = rtdbdMagic ∧ resp.version = rtdbdProtoVersion

instance (resp : RtdbdRespHdr) : Decidable resp.Recognised :=
  inferInstanceAs (Decidable (_ ∧ _))

/-- A header that announces a response with success. -/
def RtdbdRespHdr.Succeeds (resp : RtdbdRespHdr) : Prop :=
  resp.Recognised ∧ resp.status = rtdbdStOk

instance (resp : RtdbdRespHdr) : Decidable resp.Succeeds :=
  inferInstanceAs (Decidable (_ ∧ _))

/-- The number of points `irtcli_list_in` makes of a payload length. -/
def RtdbdRespHdr.points (resp : RtdbdRespHdr) : Nat := resp.payloadLen / sizeofPointInfo

/-- `rtdbd_write_req_t`, as `submit_one` fills it in. -/
def IrtcliEntry.toBytes (e : IrtcliEntry) : List UInt8 :=
  le32 e.pointId.toNat ++ [e.type, 0, 0, 0] ++ le64 e.valueBits.toNat ++ le64 e.sourceTsNs.toNat

/-- `rtdbd_find_req_t`, as `irtcli_find_by_name_in` fills it in. -/
def findReqBytes (partition : UInt32) (name : CStr) : List UInt8 :=
  byteArray 64 (name.bytes.take 63) ++ le32 partition.toNat

/-- `rtdbd_list_req_t`, as `irtcli_list_in` fills it in. -/
def listReqBytes (max offset partition : UInt32) : List UInt8 :=
  le32 max.toNat ++ le32 offset.toNat ++ le32 partition.toNat

/-- `rtdbd_set_meta_req_t`, as `irtcli_set_meta` fills it in: the metadata starts at a
multiple of 8. -/
def setMetaReqBytes (id : UInt32) (m : IndurtdbMeta) : List UInt8 :=
  le32 id.toNat ++ [0, 0, 0, 0] ++ metaBytes m

/-- `rtdbd_meta_payload_t` read as a metadata record. -/
def metaOfBytes (bytes : List UInt8) : IndurtdbMeta where
  eurMin := UInt64.ofNat (fieldAt bytes 0 8)
  eurMax := UInt64.ofNat (fieldAt bytes 8 8)
  deadband := UInt32.ofNat (fieldAt bytes 16 4)
  flags := UInt32.ofNat (fieldAt bytes 20 4)
  reserved := UInt64.ofNat (fieldAt bytes 24 8)

/-- `irtcli_point_info_t`. -/
structure IrtcliPointInfo where
  pointId : Nat
  type : UInt8
  access : UInt8
  name : List UInt8
  partition : UInt32
  deriving DecidableEq

def IrtcliPointInfo.ofBytes (bytes : List UInt8) : IrtcliPointInfo where
  pointId := fieldAt bytes 0 4
  type := bytes.getD 4 0
  access := bytes.getD 5 0
  name := (bytes.drop 8).take 64
  partition := UInt32.ofNat (fieldAt bytes 72 4)

/-- `status_to_cli`. -/
def statusToCli (st : Nat) : IrtcliRc :=
  if st = rtdbdStOk then .ok
  else if st = rtdbdStDenied then .errDenied
  else if st = rtdbdStNotFound then .errNotFound
  else .errProto

/-! ## The other end -/

/-- What becomes of a request: whether `send` takes all of it, and the bytes that
arrive behind it before the connection breaks, if it does.  `seen` is the partition of
the server's connection record where the server has handled the request. -/
structure Arrival where
  sends : Bool
  bytes : List UInt8
  seen : Option UInt32

/-- The other end: a `connect` returns a descriptor or fails; a request has an opcode
and a payload; and a connection is lost when more is awaited than arrives. -/
structure Line (σ : Type) where
  connect : σ → Option Nat × σ
  request : σ → Nat → List UInt8 → Arrival × σ
  lose : σ → σ

/-- The receive path a request was sent from.  `rewrite` is the second attempt of
`irtcli_flush`. -/
inductive Path where
  | write
  | rewrite
  | fixed (opcode respLen : Nat)
  | list (cap : Nat)
  deriving DecidableEq

/-- A request and what came of it.  `partition` is `c->partition` at that time. -/
structure Exchange where
  path : Path
  opcode : Nat
  payload : List UInt8
  arrival : Arrival
  partition : UInt32

/-- Where a byte comes from: the request it answers, counted from one, and its place
in the response. -/
structure Origin where
  request : Nat
  offset : Nat
  deriving DecidableEq

/-- A response header that was read: for which request, and from where. -/
structure HeaderRead where
  request : Nat
  origins : List Origin
  header : RtdbdRespHdr
  deriving DecidableEq

/-- The bytes that answer a request, each with its origin. -/
def tagged (request : Nat) (bytes : List UInt8) : List (UInt8 × Origin) :=
  bytes.mapIdx fun i b => (b, ⟨request, i⟩)

/-- The client on its line.  `log`, `reads` and `connects` remember the exchanges, the
headers read and `c->partition` at each connect that succeeded; `alerts` are the calls
of the callback. -/
structure Session (σ : Type) where
  c : Irtcli
  line : σ
  unread : List (UInt8 × Origin)
  log : List Exchange
  reads : List HeaderRead
  connects : List UInt32
  alerts : List String

namespace Session

variable {σ : Type}

/-- A client that has been initialised. -/
def start (c : Irtcli) (line : σ) : Session σ := ⟨c, line, [], [], [], [], []⟩

/-- `c->connected = false`. -/
def disconnected (s : Session σ) : Session σ :=
  { s with c := { s.c with connected := false, fd_nonneg := fun h => by cases h } }

/-- `c->alert`. -/
def alert (s : Session σ) (msg : String) : Session σ := { s with alerts := s.alerts ++ [msg] }

/-- The queue is replaced. -/
def withQueue (s : Session σ) (q : WriteQueue) : Session σ :=
  { s with c := { s.c with queue := q } }

/-- `c->partition = partition`. -/
def withPartition (s : Session σ) (partition : UInt32) : Session σ :=
  { s with c := { s.c with partition := partition } }

/-- The first step of `irtcli_connect`: a connection there is is closed. -/
def hangUp (s : Session σ) : Session σ :=
  if 0 ≤ s.c.fd then
    { s with
      c := { s.c with fd := -1, connected := false, fd_nonneg := fun h => by cases h }
      unread := [] }
  else s

/-- `irtcli_connect`. -/
def connect (L : Line σ) (s : Session σ) : IrtcliRc × Session σ :=
  let s := s.hangUp
  match L.connect s.line with
  | (none, line) => (.errIo, { s with line := line })
  | (some fd, line) =>
      (.ok,
        { s with
          c := { s.c with fd := fd, connected := true, fd_nonneg := fun _ => Int.natCast_nonneg fd }
          line := line
          unread := []
          connects := s.connects ++ [s.c.partition] })

/-- `!c->connected && irtcli_connect(c) != IRTCLI_OK` is false. -/
def ensureConnected (L : Line σ) (s : Session σ) : Bool × Session σ :=
  if s.c.connected then (true, s)
  else
    match s.connect L with
    | (.ok, s) => (true, s)
    | (_, s) => (false, s)

/-- `send_all` of a header and its payload. -/
def sendRequest (L : Line σ) (s : Session σ) (path : Path) (opcode : Nat)
    (payload : List UInt8) : Bool × Session σ :=
  let asked := L.request s.line opcode payload
  (asked.1.sends,
    { s with
      line := asked.2
      unread := s.unread ++ tagged (s.log.length + 1) asked.1.bytes
      log := s.log ++ [⟨path, opcode, payload, asked.1, s.c.partition⟩] })

/-- `recv_all`: the `n` bytes read with their origins, or `none` when fewer arrive. -/
def recvAll (L : Line σ) (s : Session σ) (n : Nat) :
    Option (List (UInt8 × Origin)) × Session σ :=
  if n ≤ s.unread.length then (some (s.unread.take n), { s with unread := s.unread.drop n })
  else (none, { s with unread := [], line := L.lose s.line })

/-- `recv_all` of a response header. -/
def recvHeader (L : Line σ) (s : Session σ) : Option RtdbdRespHdr × Session σ :=
  match s.recvAll L sizeofHdr with
  | (none, s) => (none, s)
  | (some bytes, s) =>
      let resp := RtdbdRespHdr.ofBytes (bytes.map (·.1))
      (some resp, { s with reads := s.reads ++ [⟨s.log.length, bytes.map (·.2), resp⟩] })

/-- The common start of `submit_one`, `rt_submit` and `irtcli_list_in`: a request is
sent and a response header read. -/
def ask (L : Line σ) (s : Session σ) (path : Path) (opcode : Nat) (payload : List UInt8) :
    Option RtdbdRespHdr × Session σ :=
  match s.sendRequest L path opcode payload with
  | (false, s) => (none, s)
  | (true, s) => s.recvHeader L

/-! ## Writing -/

/-- `submit_one`.  `path` is for the log. -/
def submitOne (L : Line σ) (s : Session σ) (path : Path) (e : IrtcliEntry) :
    IrtcliRc × Session σ :=
  match s.ask L path rtdbdOpWrite e.toBytes with
  | (none, s) => (.errIo, s)
  | (some resp, s) =>
      if ¬ resp.Recognised then (.errProto, s)
      else if resp.status = rtdbdStOk then (.ok, s)
      else if resp.status = rtdbdStDenied then (.errDenied, s)
      else (.errProto, s)

/-- `write_entry`. -/
def writeEntry (L : Line σ) (s : Session σ) (e : IrtcliEntry) : IrtcliRc × Session σ :=
  if s.c.async then
    match s.c.queue.push e with
    | some q => (.queued, s.withQueue q)
    | none => (.errFull, s.alert "irtcli: write queue full")
  else
    match s.ensureConnected L with
    | (false, s) => (.errIo, s)
    | (true, s) =>
        match s.submitOne L .write e with
        | (.errIo, s) => (.errIo, s.disconnected)
        | (rc, s) => (rc, s)

/-- `irtcli_write_bool`. -/
def irtcliWriteBool (L : Line σ) (s : Session σ) (id : UInt32) (value : Bool)
    (sourceTsNs : UInt64) : IrtcliRc × Session σ :=
  s.writeEntry L ⟨id, irtcliTypeBool, if value then 1 else 0, sourceTsNs⟩

/-- `irtcli_write_int32`. -/
def irtcliWriteInt32 (L : Line σ) (s : Session σ) (id : UInt32) (value : Int32)
    (sourceTsNs : UInt64) : IrtcliRc × Session σ :=
  s.writeEntry L ⟨id, irtcliTypeInt32, value.toInt64.toUInt64, sourceTsNs⟩

/-- `irtcli_write_double`, with the bits of its value. -/
def irtcliWriteDouble (L : Line σ) (s : Session σ) (id : UInt32) (value : UInt64)
    (sourceTsNs : UInt64) : IrtcliRc × Session σ :=
  s.writeEntry L ⟨id, irtcliTypeDouble, value, sourceTsNs⟩

/-- One entry of `irtcli_flush`: submitted, and once more behind a reconnect where the
connection fails.  A second failure leaves `c->connected` as it is. -/
def submitAgain (L : Line σ) (s : Session σ) (e : IrtcliEntry) : IrtcliRc × Session σ :=
  match s.submitOne L .write e with
  | (.errIo, s) =>
      match s.disconnected.connect L with
      | (.ok, s) => s.submitOne L .rewrite e
      | (_, s) => (.errIo, s)
  | (rc, s) => (rc, s)

/-- The loop of `irtcli_flush`, with at most `n` turns ahead. -/
def flushLoop (L : Line σ) : Nat → Nat → Session σ → Nat × Session σ
  | 0, submitted, s => (submitted, s)
  | n + 1, submitted, s =>
      match s.c.queue.pop with
      | none => (submitted, s)
      | some (e, q) =>
          match (s.withQueue q).submitAgain L e with
          | (.ok, s) => flushLoop L n (submitted + 1) s
          | (_, s) =>
              (submitted,
                (s.alert "irtcli: submit failed, entry retained").withQueue s.c.queue.restore)

/-- `irtcli_flush`: each turn takes an entry. -/
def irtcliFlush (L : Line σ) (s : Session σ) : Nat × Session σ :=
  if s.c.queue.count = 0 then (0, s)
  else
    match s.ensureConnected L with
    | (false, s) => (0, s)
    | (true, s) => flushLoop L s.c.queue.count 0 s

/-! ## Requests that are answered at once -/

/-- `rt_submit`: the status and the payload read. -/
def rtSubmit (L : Line σ) (s : Session σ) (opcode : Nat) (payload : List UInt8)
    (respLen : Nat) : Except IrtcliRc (Nat × List UInt8) × Session σ :=
  match s.ensureConnected L with
  | (false, s) => (.error .errIo, s)
  | (true, s) =>
      match s.ask L (.fixed opcode respLen) opcode payload with
      | (none, s) => (.error .errIo, s.disconnected)
      | (some resp, s) =>
          if ¬ resp.Recognised then (.error .errProto, s)
          else if resp.status = rtdbdStOk ∧ 0 < respLen then
            match s.recvAll L respLen with
            | (none, s) => (.error .errIo, s.disconnected)
            | (some bytes, s) => (.ok (resp.status, bytes.map (·.1)), s)
          else (.ok (resp.status, []), s)

/-- `irtcli_find_by_name_in`. -/
def irtcliFindByNameIn (L : Line σ) (s : Session σ) (partition : UInt32) (name : CStr) :
    Except IrtcliRc Nat × Session σ :=
  match s.rtSubmit L rtdbdOpFindByName (findReqBytes partition name) sizeofWord with
  | (.error rc, s) => (.error rc, s)
  | (.ok (st, bytes), s) =>
      (if st = rtdbdStOk then .ok (fieldAt bytes 0 4) else .error (statusToCli st), s)

/-- `irtcli_find_by_name`. -/
def irtcliFindByName (L : Line σ) (s : Session σ) (name : CStr) :
    Except IrtcliRc Nat × Session σ :=
  s.irtcliFindByNameIn L s.c.partition name

/-- `irtcli_select`. -/
def irtcliSelect (L : Line σ) (s : Session σ) (partition : UInt32) : IrtcliRc × Session σ :=
  match s.rtSubmit L rtdbdOpSelect (le32 partition.toNat) 0 with
  | (.error rc, s) => (rc, s)
  | (.ok (st, _), s) =>
      (statusToCli st,
        if statusToCli st = .ok then s.withPartition partition else s)

/-- `irtcli_list_in`, with room for `cap` points. -/
def irtcliListIn (L : Line σ) (s : Session σ) (partition offset max : UInt32) (cap : Nat) :
    Except IrtcliRc (List IrtcliPointInfo) × Session σ :=
  match s.ensureConnected L with
  | (false, s) => (.error .errIo, s)
  | (true, s) =>
      match s.ask L (.list cap) rtdbdOpList (listReqBytes max offset partition) with
      | (none, s) => (.error .errIo, s.disconnected)
      | (some resp, s) =>
          if ¬ resp.Recognised then (.error .errProto, s)
          else if resp.status ≠ rtdbdStOk then (.error (statusToCli resp.status), s)
          else if cap < resp.points then (.error .errArg, s)
          else
            match s.recvAll L (resp.points * sizeofPointInfo) with
            | (none, s) => (.error .errIo, s.disconnected)
            | (some bytes, s) =>
                (.ok ((List.range resp.points).map fun i =>
                  .ofBytes ((bytes.map (·.1)).drop (i * sizeofPointInfo))), s)

/-- `irtcli_get_meta`. -/
def irtcliGetMeta (L : Line σ) (s : Session σ) (id : UInt32) :
    Except IrtcliRc IndurtdbMeta × Session σ :=
  match s.rtSubmit L rtdbdOpGetMeta (le32 id.toNat) 32 with
  | (.error rc, s) => (.error rc, s)
  | (.ok (st, bytes), s) =>
      (if st = rtdbdStOk then .ok (metaOfBytes bytes) else .error (statusToCli st), s)

/-- `irtcli_set_meta`. -/
def irtcliSetMeta (L : Line σ) (s : Session σ) (id : UInt32) (m : IndurtdbMeta) :
    IrtcliRc × Session σ :=
  match s.rtSubmit L rtdbdOpSetMeta (setMetaReqBytes id m) 0 with
  | (.error rc, s) => (rc, s)
  | (.ok (st, _), s) => (statusToCli st, s)

/-! ## What a call leaves of the session -/

theorem irtcliFindByNameIn_session (L : Line σ) (s : Session σ) (partition : UInt32)
    (name : CStr) : (s.irtcliFindByNameIn L partition name).2 =
      (s.rtSubmit L rtdbdOpFindByName (findReqBytes partition name) sizeofWord).2 := by
  unfold irtcliFindByNameIn
  split
  next heq => rw [heq]
  next heq => rw [heq]

theorem irtcliGetMeta_session (L : Line σ) (s : Session σ) (id : UInt32) :
    (s.irtcliGetMeta L id).2 = (s.rtSubmit L rtdbdOpGetMeta (le32 id.toNat) 32).2 := by
  unfold irtcliGetMeta
  split
  next heq => rw [heq]
  next heq => rw [heq]

theorem irtcliSetMeta_session (L : Line σ) (s : Session σ) (id : UInt32) (m : IndurtdbMeta) :
    (s.irtcliSetMeta L id m).2 = (s.rtSubmit L rtdbdOpSetMeta (setMetaReqBytes id m) 0).2 := by
  unfold irtcliSetMeta
  split
  next heq => rw [heq]
  next heq => rw [heq]

end Session

/-! ## Runs -/

/-- A call of the client, with its arguments. -/
inductive Call where
  | connect
  | setAsync (async : Bool)
  | writeBool (id : UInt32) (value : Bool) (sourceTsNs : UInt64)
  | writeInt32 (id : UInt32) (value : Int32) (sourceTsNs : UInt64)
  | writeDouble (id : UInt32) (value : UInt64) (sourceTsNs : UInt64)
  | flush
  | findByNameIn (partition : UInt32) (name : CStr)
  | findByName (name : CStr)
  | select (partition : UInt32)
  | listIn (partition offset max : UInt32) (cap : Nat)
  | getMeta (id : UInt32)
  | setMeta (id : UInt32) (m : IndurtdbMeta)

namespace Session

variable {σ : Type}

/-- What a call leaves. -/
def call (L : Line σ) (s : Session σ) : Call → Session σ
  | .connect => (s.connect L).2
  | .setAsync async => { s with c := { s.c with async := async } }
  | .writeBool id value sourceTsNs => (s.irtcliWriteBool L id value sourceTsNs).2
  | .writeInt32 id value sourceTsNs => (s.irtcliWriteInt32 L id value sourceTsNs).2
  | .writeDouble id value sourceTsNs => (s.irtcliWriteDouble L id value sourceTsNs).2
  | .flush => (s.irtcliFlush L).2
  | .findByNameIn partition name => (s.irtcliFindByNameIn L partition name).2
  | .findByName name => (s.irtcliFindByName L name).2
  | .select partition => (s.irtcliSelect L partition).2
  | .listIn partition offset max cap => (s.irtcliListIn L partition offset max cap).2
  | .getMeta id => (s.irtcliGetMeta L id).2
  | .setMeta id m => (s.irtcliSetMeta L id m).2

/-- What a sequence of calls leaves. -/
def run (L : Line σ) (s : Session σ) (calls : List Call) : Session σ := calls.foldl (call L) s

end Session

end InduRtdb.Client
