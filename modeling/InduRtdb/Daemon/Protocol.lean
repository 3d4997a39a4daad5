/-
  Daemon/Protocol.lean --- the frames between `rtdbd` and its clients.

  Source: `rtdbd/include/rtdbd/protocol.h`.

  Requests and responses have a header of twelve bytes.  A payload is read from,
  or written to, the bytes of its C structure, least significant byte first.
-/
import InduRtdb.Core.Delta

set_option autoImplicit false

namespace InduRtdb.Daemon

open InduRtdb.Core

/-! ## Constants -/

abbrev rtdbdMagic : Nat := 0x52424431
abbrev rtdbdProtoVersion : Nat := 3

abbrev rtdbdOpPing : Nat := 1
abbrev rtdbdOpWrite : Nat := 2
abbrev rtdbdOpAuditDump : Nat := 3
abbrev rtdbdOpSubscribe : Nat := 4
abbrev rtdbdOpUnsubscribe : Nat := 5
abbrev rtdbdOpNotify : Nat := 6
abbrev rtdbdOpFindByName : Nat := 7
abbrev rtdbdOpGetMeta : Nat := 8
abbrev rtdbdOpSetMeta : Nat := 9
abbrev rtdbdOpGet : Nat := 10
abbrev rtdbdOpList : Nat := 11
abbrev rtdbdOpCreatePoint : Nat := 12
abbrev rtdbdOpDeletePoint : Nat := 13
abbrev rtdbdOpRenamePoint : Nat := 14
abbrev rtdbdOpGetLog : Nat := 15
abbrev rtdbdOpHealth : Nat := 16
abbrev rtdbdOpSelect : Nat := 17

abbrev rtdbdStOk : Nat := 0
abbrev rtdbdStBadRequest : Nat := 1
abbrev rtdbdStDenied : Nat := 2
abbrev rtdbdStInternal : Nat := 3
abbrev rtdbdStNotFound : Nat := 4

/-- The partition of `LIST` that stands for all of them. -/
abbrev rtdbdPartitionAll : UInt32 := 0xFFFFFFFF

abbrev rtdbdSubMax : Nat := 32
abbrev rtdbdAuditCapacity : Nat := 256
abbrev rtdbdLogCapacity : Nat := 128

/-! ## Bytes -/

/-- The eight bytes of a `uint64_t`, least significant first. -/
def le64 (n : Nat) : List UInt8 := le32 n ++ le32 (n / 2 ^ 32)

@[simp] theorem length_le64 (n : Nat) : (le64 n).length = 8 := rfl

/-- A zeroed array of `n` bytes with `bytes` copied to its start. -/
def byteArray (n : Nat) (bytes : List UInt8) : List UInt8 :=
  bytes.take n ++ List.replicate (n - bytes.length) 0

@[simp] theorem length_byteArray (n : Nat) (bytes : List UInt8) :
    (byteArray n bytes).length = n := by
  simp only [byteArray, List.length_append, List.length_take, List.length_replicate]
  omega

/-- The number in the `n` bytes at `offset`. -/
def fieldAt (bytes : List UInt8) (offset n : Nat) : Nat := ofLe ((bytes.drop offset).take n)

/-- The string in the `n` bytes at `offset`, its last byte having been zeroed. -/
def nameAt (bytes : List UInt8) (offset : Nat) : CStr :=
  CStr.ofBytes ((bytes.drop offset).take 63)

/-! ## Headers -/

/-- `sizeof(rtdbd_req_hdr_t)` and `sizeof(rtdbd_resp_hdr_t)`. -/
abbrev sizeofHdr : Nat := 12

/-- `rtdbd_req_hdr_t`. -/
structure RtdbdReqHdr where
  magic : Nat
  version : Nat
  opcode : Nat
  payloadLen : Nat
  deriving DecidableEq

/-- Twelve bytes read as a request header. -/
def RtdbdReqHdr.ofBytes (bytes : List UInt8) : RtdbdReqHdr where
  magic := fieldAt bytes 0 4
  version := fieldAt bytes 4 2
  opcode := fieldAt bytes 6 2
  payloadLen := fieldAt bytes 8 4

/-- The header checks of `handle_request` pass. -/
def RtdbdReqHdr.Recognised (req : RtdbdReqHdr) : Prop :=
  req.magic = rtdbdMagic ∧ req.version = rtdbdProtoVersion

instance (req : RtdbdReqHdr) : Decidable req.Recognised :=
  inferInstanceAs (Decidable (_ ∧ _))

/-- The bytes of a header; `code` is an opcode or a status. -/
def hdrBytes (code len : Nat) : List UInt8 :=
  le32 rtdbdMagic ++ le16 rtdbdProtoVersion ++ le16 code ++ le32 len

@[simp] theorem length_hdrBytes (code len : Nat) : (hdrBytes code len).length = 12 := rfl

/-- A header and the payload it announces. -/
def frameBytes (code : Nat) (payload : List UInt8) : List UInt8 :=
  hdrBytes code payload.length ++ payload

@[simp] theorem length_frameBytes (code : Nat) (payload : List UInt8) :
    (frameBytes code payload).length = 12 + payload.length := by
  rw [frameBytes, List.length_append, length_hdrBytes]

/-! ## Request payloads -/

/-- `rtdbd_write_req_t`. -/
structure RtdbdWriteReq where
  pointId : Nat
  type : UInt8
  valueBits : UInt64
  sourceTsNs : Nat
  deriving DecidableEq

abbrev sizeofWriteReq : Nat := 24

def RtdbdWriteReq.ofBytes (bytes : List UInt8) : RtdbdWriteReq where
  pointId := fieldAt bytes 0 4
  type := bytes.getD 4 0
  valueBits := UInt64.ofNat (fieldAt bytes 8 8)
  sourceTsNs := fieldAt bytes 16 8

/-- The payloads that are one `uint32_t`: `rtdbd_sub_req_t`, `rtdbd_meta_req_t`,
`rtdbd_get_req_t`, `rtdbd_log_req_t` and the partition of `SELECT`. -/
abbrev sizeofWord : Nat := 4

/-- `rtdbd_find_req_t`. -/
structure RtdbdFindReq where
  name : CStr
  partition : UInt32

abbrev sizeofFindReq : Nat := 68

def RtdbdFindReq.ofBytes (bytes : List UInt8) : RtdbdFindReq where
  name := nameAt bytes 0
  partition := UInt32.ofNat (fieldAt bytes 64 4)

/-- `rtdbd_set_meta_req_t`: four bytes stand between its members, for the alignment of the
second. -/
structure RtdbdSetMetaReq where
  pointId : Nat
  pointMeta : IndurtdbMeta

abbrev sizeofSetMetaReq : Nat := 40

def RtdbdSetMetaReq.ofBytes (bytes : List UInt8) : RtdbdSetMetaReq where
  pointId := fieldAt bytes 0 4
  pointMeta :=
    { eurMin := UInt64.ofNat (fieldAt bytes 8 8)
      eurMax := UInt64.ofNat (fieldAt bytes 16 8)
      deadband := UInt32.ofNat (fieldAt bytes 24 4)
      flags := UInt32.ofNat (fieldAt bytes 28 4)
      reserved := UInt64.ofNat (fieldAt bytes 32 8) }

/-- `rtdbd_list_req_t`. -/
structure RtdbdListReq where
  max : Nat
  offset : Nat
  partition : UInt32

abbrev sizeofListReq : Nat := 12

def RtdbdListReq.ofBytes (bytes : List UInt8) : RtdbdListReq where
  max := fieldAt bytes 0 4
  offset := fieldAt bytes 4 4
  partition := UInt32.ofNat (fieldAt bytes 8 4)

/-- `rtdbd_create_req_t`. -/
structure RtdbdCreateReq where
  pointId : Nat
  type : UInt8
  access : UInt8
  name : CStr
  partition : UInt32

abbrev sizeofCreateReq : Nat := 76

def RtdbdCreateReq.ofBytes (bytes : List UInt8) : RtdbdCreateReq where
  pointId := fieldAt bytes 0 4
  type := bytes.getD 4 0
  access := bytes.getD 5 0
  name := nameAt bytes 8
  partition := UInt32.ofNat (fieldAt bytes 72 4)

/-- `rtdbd_delete_req_t`. -/
structure RtdbdDeleteReq where
  pointId : Nat
  partition : UInt32

abbrev sizeofDeleteReq : Nat := 8

def RtdbdDeleteReq.ofBytes (bytes : List UInt8) : RtdbdDeleteReq where
  pointId := fieldAt bytes 0 4
  partition := UInt32.ofNat (fieldAt bytes 4 4)

/-- `rtdbd_rename_req_t`. -/
structure RtdbdRenameReq where
  pointId : Nat
  name : CStr
  partition : UInt32

abbrev sizeofRenameReq : Nat := 72

def RtdbdRenameReq.ofBytes (bytes : List UInt8) : RtdbdRenameReq where
  pointId := fieldAt bytes 0 4
  name := nameAt bytes 4
  partition := UInt32.ofNat (fieldAt bytes 68 4)

/-! ## Response payloads and notifications -/

/-- `rtdbd_meta_payload_t`. -/
def metaBytes (m : IndurtdbMeta) : List UInt8 :=
  le64 m.eurMin.toNat ++ le64 m.eurMax.toNat ++ le32 m.deadband.toNat ++ le32 m.flags.toNat
    ++ le64 m.reserved.toNat

/-- `rtdbd_get_resp_t`, as `do_get` fills it in. -/
def getRespBytes (id : Nat) (pt : IndurtdbPoint) : List UInt8 :=
  le32 id ++ [pt.type, pt.quality, 0, 0] ++ byteArray 8 pt.value
    ++ byteArray 32 (if pt.type.toNat = indurtdbTypeString then pt.value else [])
    ++ le64 pt.timestampNs ++ le64 pt.sourceTimestampNs

abbrev sizeofPointInfo : Nat := 76

/-- `rtdbd_point_info_t`, as `do_list` fills it in. -/
def pointInfoBytes (id : Nat) (pt : IndurtdbPoint) : List UInt8 :=
  le32 id ++ [pt.type, pt.access, 0, 0] ++ byteArray 64 (pt.name.bytes.take 63)
    ++ le32 pt.partition.toNat

/-- `rtdbd_audit_entry_t`. -/
structure RtdbdAuditEntry where
  pid : Nat
  uid : Nat
  pointId : Nat
  partition : UInt32
  tsNs : Nat
  deriving DecidableEq, Inhabited

abbrev sizeofAuditEntry : Nat := 24

def RtdbdAuditEntry.toBytes (e : RtdbdAuditEntry) : List UInt8 :=
  le32 e.pid ++ le32 e.uid ++ le32 e.pointId ++ le32 e.partition.toNat ++ le64 e.tsNs

/-- `rtdbd_log_entry_t`. -/
structure RtdbdLogEntry where
  tsNs : Nat
  level : UInt8
  msg : List UInt8

abbrev sizeofLogEntry : Nat := 128

def RtdbdLogEntry.toBytes (e : RtdbdLogEntry) : List UInt8 :=
  le64 e.tsNs ++ [e.level, 0, 0, 0] ++ byteArray 116 e.msg

/-- `rtdbd_notify_t`. -/
structure RtdbdNotify where
  pointId : Nat
  type : UInt8
  valueBits : UInt64
  timestampNs : Nat
  sourceTsNs : Nat
  deriving DecidableEq, Inhabited

def RtdbdNotify.toBytes (nt : RtdbdNotify) : List UInt8 :=
  le32 nt.pointId ++ [nt.type, 0, 0, 0] ++ le64 nt.valueBits.toNat ++ le64 nt.timestampNs
    ++ le64 nt.sourceTsNs

/-- The frame of a notification. -/
def RtdbdNotify.frame (nt : RtdbdNotify) : List UInt8 := frameBytes rtdbdOpNotify nt.toBytes

/-- `RTDBD_NOTIFY_FRAME_LEN`. -/
abbrev rtdbdNotifyFrameLen : Nat := 44

@[simp] theorem length_metaBytes (m : IndurtdbMeta) : (metaBytes m).length = 32 := rfl

@[simp] theorem length_getRespBytes (id : Nat) (pt : IndurtdbPoint) :
    (getRespBytes id pt).length = 64 := by
  simp [getRespBytes]

@[simp] theorem length_pointInfoBytes (id : Nat) (pt : IndurtdbPoint) :
    (pointInfoBytes id pt).length = sizeofPointInfo := by
  simp [pointInfoBytes]

@[simp] theorem RtdbdAuditEntry.length_toBytes (e : RtdbdAuditEntry) :
    e.toBytes.length = sizeofAuditEntry := rfl

@[simp] theorem RtdbdLogEntry.length_toBytes (e : RtdbdLogEntry) :
    e.toBytes.length = sizeofLogEntry := by
  simp [RtdbdLogEntry.toBytes]

@[simp] theorem RtdbdNotify.length_toBytes (nt : RtdbdNotify) : nt.toBytes.length = 32 := rfl

@[simp] theorem RtdbdNotify.length_frame (nt : RtdbdNotify) :
    nt.frame.length = rtdbdNotifyFrameLen := rfl

/-! ## Sockets -/

/-- One end of a connection.  `input` is what still arrives before the peer closes
or the connection breaks; `room` is what `send` still takes before it fails, if it
does; `output` is what has been sent. -/
structure Socket where
  input : List UInt8
  room : Option Nat
  output : List UInt8

namespace Socket

/-- `send_all`, and whether it succeeds. -/
def sendAll (s : Socket) (buf : List UInt8) : Bool × Socket :=
  match s.room with
  | none => (true, { s with output := s.output ++ buf })
  | some r =>
      if buf.length ≤ r then
        (true, { s with output := s.output ++ buf, room := some (r - buf.length) })
      else (false, { s with output := s.output ++ buf.take r, room := some 0 })

/-- `recv_all`: the `n` bytes read, or `none` when fewer arrive. -/
def recvAll (s : Socket) (n : Nat) : Option (List UInt8) × Socket :=
  if n ≤ s.input.length then (some (s.input.take n), { s with input := s.input.drop n })
  else (none, { s with input := [] })

/-- `send` takes this many bytes more. -/
def Takes (s : Socket) (n : Nat) : Prop := ∀ r, s.room = some r → n ≤ r

instance (s : Socket) (n : Nat) : Decidable (s.Takes n) :=
  match h : s.room with
  | none => .isTrue fun r hr => by simp [h] at hr
  | some r => decidable_of_iff (n ≤ r) ⟨fun hn r' hr => by simp_all, fun hs => hs r h⟩

/-- A send takes a beginning of the buffer, and all of it if it succeeds. -/
theorem sendAll_eq (s : Socket) (buf : List UInt8) :
    ∃ ok k room, s.sendAll buf = (ok, ⟨s.input, room, s.output ++ buf.take k⟩) ∧
      k ≤ buf.length ∧ (ok = true → k = buf.length) := by
  unfold sendAll
  split
  · exact ⟨true, buf.length, none, by simp_all, Nat.le_refl _, fun _ => rfl⟩
  · split
    · exact ⟨true, buf.length, _, by rw [List.take_length], Nat.le_refl _, fun _ => rfl⟩
    next hlong => exact ⟨false, _, some 0, rfl, by omega, fun h => by cases h⟩

end Socket

end InduRtdb.Daemon
