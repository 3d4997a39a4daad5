/-
  Monitor/Protocol.lean --- the frames of the daemon as the Python client packs and
  unpacks them.

  Source: the constants and structures of `tools/rtdb-monitor/rtdb_client.py`, and what
  `RtdbClient._request` makes of the bytes of a response.
-/
import InduRtdb.Daemon.Effects
import Mathlib.Data.List.DropRight

set_option autoImplicit false

namespace InduRtdb.Monitor

open InduRtdb.Core InduRtdb.Daemon

/-! ## Headers -/

/-- `REQ_HDR` and `RESP_HDR`, unpacked; `kind` is an opcode or a status. -/
structure Hdr where
  magic : Nat
  version : Nat
  kind : Nat
  plen : Nat
  deriving DecidableEq, Repr

/-- `REQ_HDR.unpack` and `RESP_HDR.unpack`. -/
def Hdr.unpack (bytes : List UInt8) : Hdr where
  magic := fieldAt bytes 0 4
  version := fieldAt bytes 4 2
  kind := fieldAt bytes 6 2
  plen := fieldAt bytes 8 4

/-- The header the daemon puts before a payload. -/
def Hdr.of (kind plen : Nat) : Hdr := ⟨rtdbdMagic, rtdbdProtoVersion, kind, plen⟩

/-- The fields of a header are read back. -/
theorem Hdr.unpack_words {magic version kind plen : Nat} (hmagic : magic < 2 ^ 32)
    (hversion : version < 2 ^ 16) (hkind : kind < 2 ^ 16) (hplen : plen < 2 ^ 32) :
    Hdr.unpack (le32 magic ++ le16 version ++ le16 kind ++ le32 plen) =
      ⟨magic, version, kind, plen⟩ := by
  obtain ⟨bytes, hbytes⟩ : ∃ bytes,
      bytes = le32 magic ++ le16 version ++ le16 kind ++ le32 plen := ⟨_, rfl⟩
  have hmagic' : fieldAt bytes 0 4 = magic := by
    have hfield : (bytes.drop 0).take 4 = le32 magic := hbytes ▸ rfl
    rw [fieldAt, hfield, ofLe_le32 hmagic]
  have hversion' : fieldAt bytes 4 2 = version := by
    have hfield : (bytes.drop 4).take 2 = le16 version := hbytes ▸ rfl
    rw [fieldAt, hfield, ofLe_le16 hversion]
  have hkind' : fieldAt bytes 6 2 = kind := by
    have hfield : (bytes.drop 6).take 2 = le16 kind := hbytes ▸ rfl
    rw [fieldAt, hfield, ofLe_le16 hkind]
  have hplen' : fieldAt bytes 8 4 = plen := by
    have hfield : (bytes.drop 8).take 4 = le32 plen := hbytes ▸ rfl
    rw [fieldAt, hfield, ofLe_le32 hplen]
  rw [← hbytes, Hdr.unpack, hmagic', hversion', hkind', hplen']

theorem Hdr.unpack_hdrBytes {kind plen : Nat} (hkind : kind < 2 ^ 16) (hplen : plen < 2 ^ 32) :
    Hdr.unpack (hdrBytes kind plen) = Hdr.of kind plen :=
  Hdr.unpack_words (by decide) (by decide) hkind hplen

/-! ## Responses -/

/-- `RtdbClient._request` behind its `sendall`, where all of `bytes` arrives and nothing
else does: the status and the body, or `none` when it raises. -/
def readResponse (bytes : List UInt8) : Option (Nat × List UInt8) :=
  if bytes.length < sizeofHdr then none
  else
    let hdr := Hdr.unpack (bytes.take sizeofHdr)
    if hdr.magic ≠ rtdbdMagic then none
    else if hdr.version ≠ rtdbdProtoVersion then none
    else if (bytes.drop sizeofHdr).length < hdr.plen then none
    else some (hdr.kind, (bytes.drop sizeofHdr).take hdr.plen)

/-- A response is read as what was sent. -/
theorem readResponse_frameBytes {status : Nat} {payload : List UInt8} (hstatus : status < 2 ^ 16)
    (hpayload : payload.length < 2 ^ 32) :
    readResponse (frameBytes status payload) = some (status, payload) := by
  have htake : (frameBytes status payload).take sizeofHdr = hdrBytes status payload.length := rfl
  have hdrop : (frameBytes status payload).drop sizeofHdr = payload := rfl
  have hlong : ¬ (frameBytes status payload).length < sizeofHdr := by
    rw [length_frameBytes]
    simp only [sizeofHdr]
    omega
  rw [readResponse, if_neg hlong, htake, hdrop, Hdr.unpack_hdrBytes hstatus hpayload]
  simp [Hdr.of]

/-- `RtdbClient._ok`: the body of a response of status `ST_OK`. -/
def okBody : Option (Nat × List UInt8) → Option (List UInt8)
  | none => none
  | some (status, body) => if status ≠ rtdbdStOk then none else some body

/-! ## Asking the daemon

All of a request arrives, and all of its response can be sent. -/

/-- What a handler is entered with. -/
def enteredWith (d : Rtdbd) (slot : Nat) (env : Env) (opcode : Nat) (payload : List UInt8) :
    RtdbdCtx where
  d := d
  slot := slot
  sock := ⟨payload, none, []⟩
  req := ⟨rtdbdMagic, rtdbdProtoVersion, opcode, payload.length⟩
  env := env

theorem headerOf_frameBytes {opcode : Nat} {payload : List UInt8} (hopcode : opcode < 2 ^ 16)
    (hpayload : payload.length < 2 ^ 32) :
    headerOf (frameBytes opcode payload) =
      ⟨rtdbdMagic, rtdbdProtoVersion, opcode, payload.length⟩ := by
  have htake : (frameBytes opcode payload).take sizeofHdr = hdrBytes opcode payload.length := rfl
  have hhdr := Hdr.unpack_hdrBytes hopcode hpayload
  simp only [Hdr.unpack, Hdr.of, Hdr.mk.injEq] at hhdr
  obtain ⟨hmagic, hversion, hkind, hplen⟩ := hhdr
  rw [headerOf, htake, RtdbdReqHdr.ofBytes, hmagic, hversion, hkind, hplen]

/-- A whole request is what its handler makes of it. -/
theorem handleRequest_frameBytes {d : Rtdbd} {slot : Nat} {env : Env} {opcode : Nat}
    {payload : List UInt8} (hopcode : opcode < 2 ^ 16) (hpayload : payload.length < 2 ^ 32) :
    handleRequest d slot ⟨frameBytes opcode payload, none, []⟩ env =
      ⟨(dispatch (enteredWith d slot env opcode payload)).1,
        (dispatch (enteredWith d slot env opcode payload)).2.d,
        (dispatch (enteredWith d slot env opcode payload)).2.sock⟩ := by
  have hheader := headerOf_frameBytes hopcode hpayload
  have harrives : HeaderArrives (frameBytes opcode payload) := by
    refine ⟨?_, ?_⟩
    · rw [length_frameBytes]
      exact Nat.le_add_right _ _
    · rw [hheader]
      exact ⟨rfl, rfl⟩
  have hentered : RtdbdCtx.ofRequest d slot ⟨frameBytes opcode payload, none, []⟩ env =
      enteredWith d slot env opcode payload := by
    rw [RtdbdCtx.ofRequest, hheader]
    rfl
  rw [handleRequest_eq harrives, hentered]

/-- A payload of the size its handler wants is handed on. -/
theorem withPayload_entered {d : Rtdbd} {slot : Nat} {env : Env} {opcode : Nat}
    {payload : List UInt8} {size : Nat} (hsize : payload.length = size)
    (k : List UInt8 → Handler) :
    (enteredWith d slot env opcode payload).withPayload size k =
      k payload { enteredWith d slot env opcode payload with sock := ⟨[], none, []⟩ } := by
  subst hsize
  simp [RtdbdCtx.withPayload, enteredWith, Socket.recvAll]

/-! ## Points -/

/-- `TYPE_NAME.get(ptype, str(ptype))`. -/
def typeName (ptype : Nat) : String :=
  if ptype = indurtdbTypeBool then "bool"
  else if ptype = indurtdbTypeInt32 then "int32"
  else if ptype = indurtdbTypeDouble then "double"
  else if ptype = indurtdbTypeString then "string"
  else if ptype = indurtdbTypeInt64 then "int64"
  else if ptype = indurtdbTypeUint32 then "uint32"
  else if ptype = indurtdbTypeFloat then "float"
  else toString ptype

/-- `bytes.rstrip(b"\x00")`. -/
def rstripNul (bytes : List UInt8) : List UInt8 := bytes.rdropWhile (· == 0)

theorem rstripNul_padded {bytes : List UInt8} (hfree : (0 : UInt8) ∉ bytes) (n : Nat) :
    rstripNul (bytes ++ List.replicate n 0) = bytes := by
  induction n with
  | zero =>
      rw [List.replicate_zero, List.append_nil, rstripNul, List.rdropWhile_eq_self_iff]
      intro hne hlast
      exact hfree (beq_iff_eq.mp hlast ▸ List.getLast_mem hne)
  | succ n ih =>
      rw [List.replicate_succ', ← List.append_assoc, rstripNul,
        List.rdropWhile_concat_pos _ _ _ rfl]
      exact ih

end InduRtdb.Monitor
