/-
  Monitor/Values.lean --- a value on its way to the segment and back.

  Source: `_decode_value`, `_encode_value`, `RtdbClient.write_point` and
  `RtdbClient.get_point` of `tools/rtdb-monitor/rtdb_client.py`, `irtcli_write_*` of
  `client/src/client.c`, `do_write`, `do_get` and `notify_broadcast` of
  `rtdbd/src/rtdbd.c`, and the stores of `pm_write_impl_q`.

  The encoders do not agree about the bytes above a small value, and a store leaves the
  bytes of the union above its member as they were.  What a decoder looks at are the
  bytes of the member: `width` of them.  A `FLOAT` is a double while it is in Python, and
  a signalling NaN is quiet from there on.
-/
import InduRtdb.Api.Frames
import InduRtdb.Client.Irtcli
import InduRtdb.Daemon.Framing
import InduRtdb.Daemon.Loop
import InduRtdb.Monitor.Protocol

set_option autoImplicit false

namespace InduRtdb.Monitor

open InduRtdb.Core InduRtdb.Api InduRtdb.Daemon InduRtdb.Lib

/-! ## Values -/

/-- What `_decode_value` returns.  A floating-point number is the bits it is packed as, a
text the bytes it is decoded from. -/
inductive PyValue where
  | bool (b : Bool)
  | int (n : Int)
  | float (bits : UInt32)
  | double (bits : UInt64)
  | text (bytes : List UInt8)
  deriving DecidableEq

/-- A single-precision number made a double, and back: both conversions keep the number,
and the sign and the payload of a NaN, which they make quiet. -/
def throughDouble (bits : UInt32) : UInt32 :=
  if 0x7f800000 < bits &&& 0x7fffffff then bits ||| 0x00400000 else bits

/-- A value of a numeric type. -/
inductive Numeric where
  | bool (b : Bool)
  | int32 (n : Int32)
  | int64 (n : Int64)
  | uint32 (n : UInt32)
  | float (bits : UInt32)
  | double (bits : UInt64)

namespace Numeric

/-- Its type. -/
def type : Numeric → UInt8
  | bool _ => 0
  | int32 _ => 1
  | int64 _ => 4
  | uint32 _ => 5
  | float _ => 6
  | double _ => 2

/-- The number of bytes of its member of the union. -/
def width : Numeric → Nat
  | bool _ => 1
  | int32 _ => 4
  | int64 _ => 8
  | uint32 _ => 4
  | float _ => 4
  | double _ => 8

/-- It as an object of Python. -/
def toPy : Numeric → PyValue
  | bool b => .bool b
  | int32 n => .int n.toInt
  | int64 n => .int n.toInt
  | uint32 n => .int n.toNat
  | float bits => .float bits
  | double bits => .double bits

/-- It behind the conversions. -/
def quieted : Numeric → Numeric
  | float bits => float (throughDouble bits)
  | v => v

/-- A NaN of a `FLOAT` that is not quiet. -/
def Signalling : Numeric → Prop
  | float bits => throughDouble bits ≠ bits
  | _ => False

theorem quieted_of_not_signalling {v : Numeric} (h : ¬ v.Signalling) : v.quieted = v := by
  cases v with
  | float bits => exact congrArg float (not_not.mp h)
  | _ => rfl

end Numeric

/-- `_decode_value`. -/
def decodeValue (valueBits : Nat) (valueStr : List UInt8) (ptype : Nat) : PyValue :=
  if ptype = indurtdbTypeBool then .bool (valueBits % 2 != 0)
  else if ptype = indurtdbTypeInt32 then .int (signedOfBits 32 (valueBits % 2 ^ 32))
  else if ptype = indurtdbTypeInt64 then .int (signedOfBits 64 valueBits)
  else if ptype = indurtdbTypeUint32 then .int (valueBits % 2 ^ 32 : Nat)
  else if ptype = indurtdbTypeFloat then
    .float (throughDouble (UInt32.ofNat (ofLe ((le64 valueBits).take 4))))
  else if ptype = indurtdbTypeDouble then .double (UInt64.ofNat (ofLe (le64 valueBits)))
  else if ptype = indurtdbTypeString then .text (rstripNul valueStr)
  else .int valueBits

/-- `ctypes.c_int32(n).value`. -/
def cInt32 (n : Int) : Int := signedOfBits 32 (n % 2 ^ 32).toNat

/-- `ctypes.c_int64(n).value`. -/
def cInt64 (n : Int) : Int := signedOfBits 64 (n % 2 ^ 64).toNat

/-- `_encode_value`, on a value of the type it is told. -/
def encodeValue : Numeric → Nat
  | .bool b => if b then 1 else 0
  | .int32 n => (cInt32 n.toInt % 2 ^ 32).toNat
  | .int64 n => (cInt64 n.toInt % 2 ^ 64).toNat
  | .uint32 n => n.toNat % 2 ^ 32
  | .float bits => ofLe (le32 (throughDouble bits).toNat ++ [0, 0, 0, 0])
  | .double bits => ofLe (le64 bits.toNat)

/-! ## Bytes -/

/-- A quiet NaN stays as it is. -/
theorem throughDouble_throughDouble (bits : UInt32) :
    throughDouble (throughDouble bits) = throughDouble bits := by
  by_cases hnan : 0x7f800000 < bits &&& 0x7fffffff
  · have hquiet : throughDouble bits = bits ||| 0x00400000 := if_pos hnan
    have hstill : 0x7f800000 < (bits ||| 0x00400000) &&& 0x7fffffff := by
      rw [UInt32.lt_iff_toNat_lt, UInt32.toNat_and] at hnan ⊢
      rw [UInt32.toNat_or, Nat.and_or_distrib_right]
      exact Nat.lt_of_lt_of_le hnan Nat.left_le_or
    rw [hquiet, throughDouble, if_pos hstill, UInt32.or_assoc, UInt32.or_self]
  · have hsame : throughDouble bits = bits := if_neg hnan
    rw [hsame, hsame]

theorem ofLe_le32_mod (n : Nat) : ofLe (le32 n) = n % 2 ^ 32 := by
  simp only [le32, ofLe, UInt8.toNat_ofNat']
  omega

theorem ofLe_le64 (n : Nat) : ofLe (le64 n) = n % 2 ^ 64 := by
  simp only [le64, le32, ofLe, UInt8.toNat_ofNat', List.cons_append, List.nil_append]
  omega

/-- The first bytes are the number modulo their range. -/
theorem ofLe_take (w : Nat) :
    ∀ bytes : List UInt8, ofLe (bytes.take w) = ofLe bytes % 256 ^ w := by
  induction w with
  | zero => intro bytes; simp [ofLe, Nat.mod_one]
  | succ w ih =>
      intro bytes
      cases bytes with
      | nil => simp [ofLe]
      | cons b bytes =>
          have hlt := b.toNat_lt
          have hdiv : (b.toNat + 256 * ofLe bytes) / 256 = ofLe bytes := by omega
          have hmod : (b.toNat + 256 * ofLe bytes) % 256 = b.toNat := by omega
          rw [List.take_succ_cons, ofLe, ofLe, ih, Nat.pow_succ, Nat.mul_comm _ 256, Nat.mod_mul,
            hdiv, hmod]

/-! ## What a decoder looks at -/

/-- Two numbers that agree in the bytes of the member are decoded alike. -/
theorem decodeValue_congr (v : Numeric) {a b : Nat} (s s' : List UInt8)
    (h : a % 256 ^ v.width = b % 256 ^ v.width) :
    decodeValue a s v.type.toNat = decodeValue b s' v.type.toNat := by
  cases v with
  | bool =>
      have hbit : a % 2 = b % 2 := by
        have h : a % 256 = b % 256 := h
        omega
      change PyValue.bool (a % 2 != 0) = PyValue.bool (b % 2 != 0)
      rw [hbit]
  | int32 =>
      have h : a % 2 ^ 32 = b % 2 ^ 32 := h
      change PyValue.int (signedOfBits 32 (a % 2 ^ 32)) = .int (signedOfBits 32 (b % 2 ^ 32))
      rw [h]
  | int64 =>
      have h : a % 2 ^ 64 = b % 2 ^ 64 := h
      change PyValue.int (signedOfBits 64 a) = .int (signedOfBits 64 b)
      rw [signedOfBits, signedOfBits, h]
  | uint32 =>
      have h : a % 2 ^ 32 = b % 2 ^ 32 := h
      change PyValue.int (a % 2 ^ 32 : Nat) = .int (b % 2 ^ 32 : Nat)
      rw [h]
  | float =>
      have h : a % 2 ^ 32 = b % 2 ^ 32 := h
      change PyValue.float (throughDouble (UInt32.ofNat (ofLe (le32 a)))) =
        .float (throughDouble (UInt32.ofNat (ofLe (le32 b))))
      rw [ofLe_le32_mod, ofLe_le32_mod, h]
  | double =>
      have h : a % 2 ^ 64 = b % 2 ^ 64 := h
      change PyValue.double (UInt64.ofNat (ofLe (le64 a))) = .double (UInt64.ofNat (ofLe (le64 b)))
      rw [ofLe_le64, ofLe_le64, h]

/-! ## What the encoders send -/

theorem signedOfBits_toUInt64 (n : Int64) : signedOfBits 64 n.toUInt64.toNat = n.toInt := by
  have hint : n.toInt = n.toBitVec.toInt := rfl
  have hnat : n.toUInt64.toNat = n.toBitVec.toNat := rfl
  have hlt := n.toBitVec.isLt
  rw [hint, hnat, BitVec.toInt_eq_toNat_cond, signedOfBits, Nat.mod_eq_of_lt hlt]
  split
  next hsmall => rw [if_pos (by omega)]
  next hlarge => rw [if_neg (by omega)]

/-- `(uint64_t)(int64_t)value` keeps the value in its lower half. -/
theorem signedOfBits_signExtended (n : Int32) :
    signedOfBits 32 (n.toInt64.toUInt64.toNat % 2 ^ 32) = n.toInt := by
  have hwide := signedOfBits_toUInt64 n.toInt64
  have hlo := n.le_toInt
  have hhi := n.toInt_lt
  have hlt := n.toInt64.toUInt64.toNat_lt
  rw [Int32.toInt_toInt64] at hwide
  rw [← hwide] at hlo hhi ⊢
  generalize n.toInt64.toUInt64.toNat = bits at hlo hhi hlt
  simp only [signedOfBits] at hlo hhi ⊢
  split at hlo
  next hsmall =>
    rw [if_pos hsmall] at hhi ⊢
    rw [if_pos (by omega)]
    omega
  next hlarge =>
    rw [if_neg hlarge] at hhi ⊢
    rw [if_neg (by omega)]
    omega

/-- The request of an `irtcli_write_*` call. -/
inductive IrtcliSends (id : UInt32) (sourceTsNs : UInt64) :
    Numeric → Client.IrtcliEntry → Prop where
  | bool (value : Bool) : IrtcliSends id sourceTsNs (.bool value)
      ⟨id, Client.irtcliTypeBool, if value then 1 else 0, sourceTsNs⟩
  | int32 (value : Int32) : IrtcliSends id sourceTsNs (.int32 value)
      ⟨id, Client.irtcliTypeInt32, value.toInt64.toUInt64, sourceTsNs⟩
  | double (value : UInt64) : IrtcliSends id sourceTsNs (.double value)
      ⟨id, Client.irtcliTypeDouble, value, sourceTsNs⟩

/-- `WRITE_REQ.pack` in `write_point`. -/
def packWriteReq (id : UInt32) (v : Numeric) (sourceTsNs : UInt64) : List UInt8 :=
  le32 id.toNat ++ [v.type, 0, 0, 0] ++ le64 (encodeValue v) ++ le64 sourceTsNs.toNat

/-- The payload of a `WRITE` of a value, from any of the encoders. -/
inductive WriteSent (id : UInt32) (sourceTsNs : UInt64) (v : Numeric) : List UInt8 → Prop where
  | irtcli {e : Client.IrtcliEntry} (sends : IrtcliSends id sourceTsNs v e) :
      WriteSent id sourceTsNs v e.toBytes
  | python : WriteSent id sourceTsNs v (packWriteReq id v sourceTsNs)

section Calls

variable {σ : Type} (L : Client.Line σ) (s : Client.Session σ) (id : UInt32)
  (sourceTsNs : UInt64)

theorem irtcliWriteBool_sends (value : Bool) :
    ∃ e, IrtcliSends id sourceTsNs (.bool value) e ∧
      s.irtcliWriteBool L id value sourceTsNs = s.writeEntry L e := ⟨_, .bool value, rfl⟩

theorem irtcliWriteInt32_sends (value : Int32) :
    ∃ e, IrtcliSends id sourceTsNs (.int32 value) e ∧
      s.irtcliWriteInt32 L id value sourceTsNs = s.writeEntry L e := ⟨_, .int32 value, rfl⟩

theorem irtcliWriteDouble_sends (value : UInt64) :
    ∃ e, IrtcliSends id sourceTsNs (.double value) e ∧
      s.irtcliWriteDouble L id value sourceTsNs = s.writeEntry L e := ⟨_, .double value, rfl⟩

end Calls

/-- What `_encode_value` gives fits `value_bits`, and is decoded as the value, less a
signalling NaN. -/
theorem decodeValue_encodeValue (v : Numeric) :
    encodeValue v < 2 ^ 64 ∧ decodeValue (encodeValue v) [] v.type.toNat = v.quieted.toPy := by
  cases v with
  | bool b =>
      cases b with
      | false => exact ⟨by decide, rfl⟩
      | true => exact ⟨by decide, rfl⟩
  | int32 n =>
      have hlo := n.le_toInt
      have hhi := n.toInt_lt
      have hback : signedOfBits 32 ((cInt32 n.toInt % 2 ^ 32).toNat % 2 ^ 32) = n.toInt := by
        simp only [cInt32, signedOfBits]
        omega
      refine ⟨?_, congrArg PyValue.int hback⟩
      simp only [encodeValue]
      omega
  | int64 n =>
      have hlo := n.le_toInt
      have hhi := n.toInt_lt
      have hback : signedOfBits 64 (cInt64 n.toInt % 2 ^ 64).toNat = n.toInt := by
        simp only [cInt64, signedOfBits]
        omega
      refine ⟨?_, congrArg PyValue.int hback⟩
      simp only [encodeValue]
      omega
  | uint32 n =>
      have hlt := n.toNat_lt
      have hback : n.toNat % 2 ^ 32 % 2 ^ 32 = n.toNat := by omega
      refine ⟨?_, congrArg (fun k : Nat => PyValue.int k) hback⟩
      simp only [encodeValue]
      omega
  | float bits =>
      have hlt := (throughDouble bits).toNat_lt
      have hvalue : ofLe (le32 (throughDouble bits).toNat ++ [0, 0, 0, 0]) =
          (throughDouble bits).toNat := by
        simp only [le32, List.cons_append, List.nil_append, ofLe, UInt8.toNat_ofNat',
          UInt8.toNat_zero]
        omega
      have hback : UInt32.ofNat (ofLe (le32 (ofLe (le32 (throughDouble bits).toNat ++
          [0, 0, 0, 0])))) = throughDouble bits := by
        rw [hvalue, ofLe_le32 hlt, UInt32.ofNat_toNat]
      refine ⟨?_, congrArg PyValue.float ?_⟩
      · rw [encodeValue, hvalue]
        omega
      · exact (congrArg throughDouble hback).trans (throughDouble_throughDouble bits)
  | double bits =>
      have hlt := bits.toNat_lt
      have hvalue : ofLe (le64 bits.toNat) = bits.toNat := by
        rw [ofLe_le64, Nat.mod_eq_of_lt hlt]
      have hback : UInt64.ofNat (ofLe (le64 (ofLe (le64 bits.toNat)))) = bits := by
        rw [hvalue, hvalue, UInt64.ofNat_toNat]
      refine ⟨?_, congrArg PyValue.double hback⟩
      rw [encodeValue, hvalue]
      exact hlt

/-- The request carries the type of the value and bits that are decoded as the value. -/
structure Carries (id : UInt32) (v : Numeric) (w : RtdbdWriteReq) : Prop where
  pointId : w.pointId = id.toNat
  type : w.type = v.type
  bits : decodeValue w.valueBits.toNat [] v.type.toNat = v.quieted.toPy

/-- Whichever encoder a request comes from, it carries its value. -/
theorem WriteSent.carries {id : UInt32} {sourceTsNs : UInt64} {v : Numeric}
    {payload : List UInt8} (h : WriteSent id sourceTsNs v payload) :
    payload.length = sizeofWriteReq ∧ Carries id v (RtdbdWriteReq.ofBytes payload) := by
  have hfields : ∀ (type : UInt8) (bits : Nat), bits < 2 ^ 64 →
      RtdbdWriteReq.ofBytes (le32 id.toNat ++ [type, 0, 0, 0] ++ le64 bits ++
        le64 sourceTsNs.toNat) = ⟨id.toNat, type, UInt64.ofNat bits, sourceTsNs.toNat⟩ := by
    intro type bits hbits
    have hid : ofLe (le32 id.toNat) = id.toNat := ofLe_le32 id.toNat_lt
    have hvalue : ofLe (le64 bits) = bits := by rw [ofLe_le64, Nat.mod_eq_of_lt hbits]
    have hts : ofLe (le64 sourceTsNs.toNat) = sourceTsNs.toNat := by
      rw [ofLe_le64, Nat.mod_eq_of_lt sourceTsNs.toNat_lt]
    exact congr (congr (congr (congrArg RtdbdWriteReq.mk hid) rfl)
      (congrArg UInt64.ofNat hvalue)) hts
  cases h with
  | irtcli sends =>
      refine ⟨rfl, ?_⟩
      cases sends with
      | bool value =>
          rw [Client.IrtcliEntry.toBytes, hfields _ _ (UInt64.toNat_lt _)]
          refine ⟨rfl, rfl, ?_⟩
          cases value with
          | false => rfl
          | true => rfl
      | int32 value =>
          rw [Client.IrtcliEntry.toBytes, hfields _ _ (UInt64.toNat_lt _)]
          refine ⟨rfl, rfl, ?_⟩
          dsimp only
          rw [UInt64.ofNat_toNat]
          exact congrArg PyValue.int (signedOfBits_signExtended value)
      | double value =>
          rw [Client.IrtcliEntry.toBytes, hfields _ _ (UInt64.toNat_lt _)]
          refine ⟨rfl, rfl, ?_⟩
          dsimp only
          rw [UInt64.ofNat_toNat]
          exact (decodeValue_congr (.double value) [] [] (by
            rw [encodeValue, ofLe_le64]
            exact (Nat.mod_mod _ _).symm)).trans (decodeValue_encodeValue (.double value)).2
  | python =>
      obtain ⟨hlt, hback⟩ := decodeValue_encodeValue v
      refine ⟨rfl, ?_⟩
      rw [packWriteReq, hfields _ _ hlt]
      refine ⟨rfl, rfl, ?_⟩
      dsimp only
      rw [UInt64.toNat_ofNat_of_lt' hlt, hback]

/-! ## The segment -/

/-- A store of a numeric value replaces the first bytes of the union. -/
theorem pmValueStores_numeric (v : Numeric) (value : List UInt8) :
    pmValueStores v.type value = [storeValue 0 (value.take v.width)] := by
  cases v with
  | _ => rfl

theorem Numeric.width_le (v : Numeric) : v.width ≤ 8 := by
  cases v with
  | _ => simp [Numeric.width]

theorem length_take_width (v : Numeric) (bits : Nat) :
    ((le64 bits).take v.width).length = v.width := by
  rw [List.length_take, length_le64, Nat.min_eq_left v.width_le]

/-- What is copied from the union, behind a store, has the bytes of the member. -/
theorem copied_stored (v : Numeric) {bits : Nat} (hbits : bits < 2 ^ 64) (old : List UInt8) :
    ofLe (byteArray 8 ((le64 bits).take v.width ++ old.drop v.width)) % 256 ^ v.width =
      bits % 256 ^ v.width := by
  have hwidth := v.width_le
  have hlen := length_take_width v bits
  have hfirst : (byteArray 8 ((le64 bits).take v.width ++ old.drop v.width)).take v.width =
      (le64 bits).take v.width := by
    rw [byteArray, List.take_append_of_le_length (by
        rw [List.length_take, List.length_append, hlen]
        omega), List.take_take, Nat.min_eq_left hwidth, List.take_left' hlen]
  rw [← ofLe_take, hfirst, ofLe_take, ofLe_le64, Nat.mod_eq_of_lt hbits]

/-- A write that succeeds leaves the type and the value in the record. -/
theorem doWrite_stored {h h' : IndurtdbH} {w : RtdbdWriteReq} {wall : Nat} {m : IndurtdbMeta}
    {v : Numeric} (htype : w.type = v.type) (hstored : doWrite h w wall = (.stored m, h')) :
    pmValidateId h'.seg w.pointId ∧ (h'.seg.points w.pointId).type = v.type ∧
      (h'.seg.points w.pointId).name = (h.seg.points w.pointId).name ∧
      (h'.seg.points w.pointId).value = (le64 w.valueBits.toNat).take v.width ++
        (h.seg.points w.pointId).value.drop v.width := by
  have hno : ¬ (w.type.toNat = indurtdbTypeString ∨ indurtdbTypeFloat < w.type.toNat) := by
    rw [htype]
    cases v with
    | _ => simp [Numeric.type, indurtdbTypeFloat]
  unfold doWrite at hstored
  rw [if_neg hno] at hstored
  dsimp only at hstored
  generalize indurtdbQualityMake indurtdbQualityGood _ = quality at hstored
  split at hstored
  next h'' hwrite =>
    obtain rfl : h'' = h' := (Prod.mk.inj hstored).2
    unfold indurtdbHWriteQualityTs at hwrite
    split at hwrite
    next hid =>
      rcases withWriteLock_cases h.seg fun seg => pmWriteLocked seg w.pointId w.type
          (le64 w.valueBits.toNat) w.sourceTsNs quality wall with
        ⟨-, hbusy⟩ | ⟨-, begun, ended, -, hlocked⟩
      · rw [hbusy] at hwrite
        cases hwrite
      · rw [hlocked] at hwrite
        unfold pmWriteLocked pmWriteBody at hwrite
        rw [Prog.run_load] at hwrite
        split_ifs at hwrite with hreadOnly
        · cases hwrite
        · rw [storePoint_run, htype, pmValueStores_numeric] at hwrite
          obtain ⟨-, hafter⟩ := Prod.mk.inj hwrite
          rw [← hafter]
          refine ⟨hid, ?_⟩
          simp only [Segment.setPoint, Segment.setWriteSeq, Function.update_self, List.foldl_cons,
            List.foldl_nil, List.cons_append, List.nil_append, storeValue,
            List.take_zero, Nat.zero_add, true_and]
          rw [length_take_width]
    next => cases hwrite
  next => cases hstored

/-! ## Reading back -/

/-- What `get_point` returns. -/
structure PointReading where
  id : Nat
  type : Nat
  typeName : String
  quality : Nat
  value : PyValue
  ts : Nat
  sourceTs : Nat

/-- The result made of the fields of `GET_RESP.unpack`. -/
def unpackGetResp (body : List UInt8) : PointReading where
  id := fieldAt body 0 4
  type := fieldAt body 4 1
  typeName := typeName (fieldAt body 4 1)
  quality := fieldAt body 5 1
  value := decodeValue (fieldAt body 8 8) ((body.drop 16).take 32) (fieldAt body 4 1)
  ts := fieldAt body 48 8
  sourceTs := fieldAt body 56 8

/-- What `on_notify` is called with. -/
structure NotifyInfo where
  id : Nat
  type : Nat
  typeName : String
  value : PyValue
  ts : Nat
  sourceTs : Nat
  deriving DecidableEq

/-- The dictionary made of the fields of `NOTIFY.unpack`. -/
def unpackNotify (body : List UInt8) : NotifyInfo where
  id := fieldAt body 0 4
  type := fieldAt body 4 1
  typeName := typeName (fieldAt body 4 1)
  value := decodeValue (fieldAt body 8 8) [] (fieldAt body 4 1)
  ts := fieldAt body 16 8
  sourceTs := fieldAt body 24 8

/-- A record that holds the stored bytes is read as the value. -/
theorem unpackGetResp_value {id : Nat} {pt : IndurtdbPoint} {v : Numeric} {bits : Nat}
    {old : List UInt8} (hbits : bits < 2 ^ 64)
    (hcarried : decodeValue bits [] v.type.toNat = v.quieted.toPy) (htype : pt.type = v.type)
    (hvalue : pt.value = (le64 bits).take v.width ++ old.drop v.width) :
    (unpackGetResp (getRespBytes id pt)).value = v.quieted.toPy := by
  have hfieldType : fieldAt (getRespBytes id pt) 4 1 = v.type.toNat := by
    have hfield : ((getRespBytes id pt).drop 4).take 1 = [pt.type] := rfl
    rw [fieldAt, hfield, ofLe, ofLe, Nat.mul_zero, Nat.add_zero, htype]
  have hfieldBits : fieldAt (getRespBytes id pt) 8 8 = ofLe (byteArray 8 pt.value) := by
    have hbehind : (getRespBytes id pt).drop 8 = byteArray 8 pt.value ++
        (byteArray 32 (if pt.type.toNat = indurtdbTypeString then pt.value else []) ++
          (le64 pt.timestampNs ++ le64 pt.sourceTimestampNs)) := by
      rw [getRespBytes, List.append_assoc, List.append_assoc, List.append_assoc]
      rfl
    rw [fieldAt, hbehind, List.take_left' (length_byteArray _ _)]
  have hlooked : ofLe (byteArray 8 pt.value) % 256 ^ v.width = bits % 256 ^ v.width := by
    rw [hvalue]
    exact copied_stored v hbits old
  simp only [unpackGetResp, hfieldType, hfieldBits]
  rw [decodeValue_congr v _ [] hlooked, hcarried]

/-- A notification is read as the value its bits carry. -/
theorem unpackNotify_value {nt : RtdbdNotify} {v : Numeric} (htype : nt.type = v.type)
    (hcarried : decodeValue nt.valueBits.toNat [] v.type.toNat = v.quieted.toPy) :
    (unpackNotify nt.toBytes).value = v.quieted.toPy := by
  have hfieldType : fieldAt nt.toBytes 4 1 = v.type.toNat := by
    have hfield : (nt.toBytes.drop 4).take 1 = [nt.type] := rfl
    rw [fieldAt, hfield, ofLe, ofLe, Nat.mul_zero, Nat.add_zero, htype]
  have hfieldBits : fieldAt nt.toBytes 8 8 = nt.valueBits.toNat := by
    have hfield : (nt.toBytes.drop 8).take 8 = le64 nt.valueBits.toNat := rfl
    rw [fieldAt, hfield, ofLe_le64, Nat.mod_eq_of_lt nt.valueBits.toNat_lt]
  simp only [unpackNotify, hfieldType, hfieldBits]
  exact hcarried

/-- `RtdbClient._ok` for an `OP_GET` on a connection to the daemon. -/
def askPoint (d : Rtdbd) (slot : Nat) (env : Env) (id : Nat) : Option (List UInt8) :=
  okBody (readResponse
    (handleRequest d slot ⟨frameBytes rtdbdOpGet (le32 id), none, []⟩ env).sock.output)

/-- The answer to an `OP_GET` is what `do_get` finds. -/
theorem askPoint_eq {d : Rtdbd} {slot : Nat} {env : Env} {id : Nat} (hid : id < 2 ^ 32) :
    askPoint d slot env id = doGet d.h id := by
  have hsize : (le32 id).length = sizeofWord := rfl
  have hentry : kOps.find? (fun entry => entry.1 == rtdbdOpGet) = some (rtdbdOpGet, opGet) := rfl
  have hfield : fieldAt (le32 id) 0 4 = id := ofLe_le32 hid
  rw [askPoint, handleRequest_frameBytes (by decide) (by rw [hsize]; decide),
    dispatch_of_entry hentry rfl, opGet, withPayload_entered hsize]
  dsimp only
  rw [hfield]
  have hentered : (enteredWith d slot env rtdbdOpGet (le32 id)).d = d := rfl
  rw [hentered]
  cases hget : doGet d.h id with
  | none =>
      dsimp only
      rw [respond_unbounded rfl]
      have hread : readResponse (frameBytes rtdbdStNotFound []) = some (rtdbdStNotFound, []) :=
        readResponse_frameBytes (by decide) (by decide)
      exact congrArg okBody hread
  | some payload =>
      dsimp only
      rw [respond_unbounded rfl]
      have hlen : payload.length = 64 := by
        unfold doGet at hget
        split at hget
        · cases hget
        · split at hget
          · cases hget
          · rw [← Option.some.inj hget, length_getRespBytes]
      have hread : readResponse (frameBytes rtdbdStOk payload) = some (rtdbdStOk, payload) :=
        readResponse_frameBytes (by decide) (by rw [hlen]; decide)
      exact congrArg okBody hread

/-! ## A write that succeeds -/

/-- Where everything can be sent, the response of a decision is sent as a whole. -/
theorem send_unbounded (reply : Reply) {cx : RtdbdCtx} (hroom : cx.sock.room = none) :
    (reply.send cx).2.sock.output = cx.sock.output ++ frameBytes reply.status reply.payload ∧
      (reply.send cx).2.d = if reply.refused then reply.d else reply.announce reply.d := by
  have hroom' : ({ cx with
      d := reply.d, sock := { cx.sock with input := reply.input } } : RtdbdCtx).sock.room = none :=
    hroom
  have hsent := respond_unbounded hroom' reply.status reply.payload
  unfold Reply.send
  rw [hsent]
  cases reply.refused with
  | true => exact ⟨rfl, rfl⟩
  | false => exact ⟨rfl, rfl⟩

/-- A status of failure is no success. -/
theorem okBody_failing {status : Nat} {payload : List UInt8} (hfail : Failing status)
    (hpayload : payload.length < 2 ^ 32) :
    okBody (readResponse (frameBytes status payload)) = none := by
  have hstatus : status < 2 ^ 16 := by
    rcases hfail with rfl | rfl | rfl | rfl <;> decide
  rw [readResponse_frameBytes hstatus hpayload, okBody, if_pos hfail.ne_ok]

/-- A `WRITE` that is answered with `ST_OK` has been stored and broadcast. -/
theorem write_succeeds {d : Rtdbd} {slot : Nat} {env : Env} {payload : List UInt8}
    (hsize : payload.length = sizeofWriteReq)
    (hok : okBody (readResponse (handleRequest d slot
      ⟨frameBytes rtdbdOpWrite payload, none, []⟩ env).sock.output) ≠ none) :
    ∃ m h' d', doWrite d.h (RtdbdWriteReq.ofBytes payload) env.wall = (.stored m, h') ∧
      d'.h = h' ∧ d'.conns = d.conns ∧
      (handleRequest d slot ⟨frameBytes rtdbdOpWrite payload, none, []⟩ env).d =
        notifyBroadcast d' (RtdbdWriteReq.ofBytes payload) m env.now := by
  rw [handleRequest_frameBytes (by decide) (by rw [hsize]; decide)] at hok ⊢
  have hroom : (enteredWith d slot env rtdbdOpWrite payload).sock.room = none := rfl
  have hempty : (enteredWith d slot env rtdbdOpWrite payload).sock.output = [] := rfl
  have hopcode : (enteredWith d slot env rtdbdOpWrite payload).req.opcode = rtdbdOpWrite := rfl
  have hreq : (enteredWith d slot env rtdbdOpWrite payload).writeReq =
      RtdbdWriteReq.ofBytes payload := by
    rw [RtdbdCtx.writeReq, RtdbdCtx.payload]
    exact congrArg RtdbdWriteReq.ofBytes (List.take_length)
  have hd : (enteredWith d slot env rtdbdOpWrite payload).d = d := rfl
  have henv : (enteredWith d slot env rtdbdOpWrite payload).env = env := rfl
  obtain ⟨reply, decided, hdispatch⟩ :=
    dispatch_settles (enteredWith d slot env rtdbdOpWrite payload)
  generalize enteredWith d slot env rtdbdOpWrite payload = cx at *
  obtain ⟨houtput, hafter⟩ := send_unbounded reply hroom
  rw [hempty, List.nil_append] at houtput
  rw [hdispatch] at hok ⊢
  dsimp only at hok ⊢
  rw [houtput] at hok
  rw [hafter]
  have hfails : ∀ {status : Nat}, Failing status → reply.status = status → False := by
    intro status hfail hstatus
    subst hstatus
    exact hok (okBody_failing hfail decided.short)
  cases decided with
  | refused _ _ _ _ failure => exact (hfails failure rfl).elim
  | ignoring opcode =>
      rw [hopcode] at opcode
      exact absurd opcode (by decide)
  | answered _ _ _ _ _ _ _ failure =>
      rw [hopcode] at failure
      exact (hfails (failure (by decide)) rfl).elim
  | subscribed _ opcode =>
      rw [hopcode] at opcode
      exact absurd opcode (by decide)
  | selected _ _ opcode =>
      rw [hopcode] at opcode
      exact absurd opcode (by decide)
  | wrote _ _ _ _ m h stores =>
      rw [hreq, hd, henv] at stores
      rw [hreq, henv]
      refine ⟨m, h, _, stores, ?_, ?_, if_neg Bool.false_ne_true⟩
      · rfl
      · rw [← hd]
        rfl
  | writeFailed _ _ _ _ _ _ _ failure => exact (hfails failure rfl).elim
  | changed _ _ _ opcode =>
      rw [hopcode] at opcode
      cases opcode
  | changeFailed _ _ opcode =>
      rw [hopcode] at opcode
      cases opcode

/-- An offer leaves a queue as it is, or puts the notification behind it. -/
theorem toList_offer (nt : RtdbdNotify) (m : IndurtdbMeta) (now : Nat) (c : RtdbdConn)
    (st : RtdbdStats) :
    (offer nt m now c st).1.outq.toList = c.outq.toList ∨
      (offer nt m now c st).1.outq.toList = lastOf rtdbdOutqCap (c.outq.toList ++ [nt]) := by
  unfold offer
  split
  next => exact .inl rfl
  next =>
    split
    next => exact .inl rfl
    next =>
      split
      next => exact .inl rfl
      next =>
        dsimp only
        rw [toList_outqPush]
        split
        next => exact .inl rfl
        next => exact .inr rfl

theorem toList_notifyBroadcast (d : Rtdbd) (w : RtdbdWriteReq) (m : IndurtdbMeta) (now j : Nat) :
    ((notifyBroadcast d w m now).conns j).outq.toList = (d.conns j).outq.toList ∨
      ((notifyBroadcast d w m now).conns j).outq.toList =
        lastOf rtdbdOutqCap ((d.conns j).outq.toList ++ [notifyOf d.h w]) := by
  have hconn : (notifyBroadcast d w m now).conns j = _ :=
    offerLoop_conns (notifyOf d.h w) m now d.stats rtdbdMaxClients 0 d.conns d.stats j
  rw [hconn]
  split
  · exact toList_offer _ _ _ _ _
  · exact .inl rfl

/-- Behind a write, a registered point can be read, what is read is the value, and the
notification that goes to a queue, if one does, carries the value. -/
structure ReadsBack (d d' : Rtdbd) (id : UInt32) (v : Numeric) : Prop where
  answered : (d.h.seg.points id.toNat).name.isEmpty = false →
    ∀ slot env, askPoint d' slot env id.toNat ≠ none
  got : ∀ slot env body, askPoint d' slot env id.toNat = some body →
    (unpackGetResp body).value = v.toPy
  notified : ∀ j, (d'.conns j).outq.toList = (d.conns j).outq.toList ∨
    ∃ nt, (d'.conns j).outq.toList = lastOf rtdbdOutqCap ((d.conns j).outq.toList ++ [nt]) ∧
      nt.pointId = id.toNat ∧ (unpackNotify nt.toBytes).value = v.toPy

/-- **A written value is read back as itself.**  Whichever encoder sent it and whatever the
union held before, a value that a `WRITE` has stored is what `GET` and `NOTIFY` are decoded
as; of a signalling NaN of a `FLOAT` it is the quiet NaN. -/
theorem readsBack {d : Rtdbd} {slot : Nat} {env : Env} {id : UInt32} {sourceTsNs : UInt64}
    {v : Numeric} {payload : List UInt8} (hsent : WriteSent id sourceTsNs v payload)
    (hok : okBody (readResponse (handleRequest d slot
      ⟨frameBytes rtdbdOpWrite payload, none, []⟩ env).sock.output) ≠ none) :
    ReadsBack d (handleRequest d slot ⟨frameBytes rtdbdOpWrite payload, none, []⟩ env).d id
        v.quieted ∧ (¬ v.Signalling → v.quieted = v) := by
  obtain ⟨hsize, hcarries⟩ := hsent.carries
  obtain ⟨m, h', d', hstored, hh, hconns, hafter⟩ := write_succeeds hsize hok
  obtain ⟨hid, htype, hname, hvalue⟩ := doWrite_stored hcarries.type hstored
  rw [hcarries.pointId] at hid htype hname hvalue
  have hread : ∀ now slot' env',
      askPoint (notifyBroadcast d' (RtdbdWriteReq.ofBytes payload) m now) slot' env' id.toNat =
        doGet h' id.toNat := by
    intro now slot' env'
    rw [askPoint_eq id.toNat_lt, ← hh]
    rfl
  have hget : ∀ body, doGet h' id.toNat = some body →
      body = getRespBytes id.toNat (h'.seg.points id.toNat) := by
    intro body hbody
    rw [doGet, indurtdbHReadPoint, if_pos hid] at hbody
    dsimp only at hbody
    split at hbody
    · cases hbody
    · exact (Option.some.inj hbody).symm
  rw [hafter]
  refine ⟨⟨?_, ?_, ?_⟩, Numeric.quieted_of_not_signalling⟩
  · intro hnamed slot env
    rw [hread, doGet, indurtdbHReadPoint, if_pos hid]
    dsimp only
    rw [hname, hnamed]
    simp
  · intro slot env body hbody
    rw [hread] at hbody
    rw [hget body hbody]
    exact unpackGetResp_value (UInt64.toNat_lt _) hcarries.bits htype hvalue
  · intro j
    rw [← hconns]
    rcases toList_notifyBroadcast d' (RtdbdWriteReq.ofBytes payload) m env.now j with hold | hnew
    · exact .inl hold
    · exact .inr ⟨_, hnew, hcarries.pointId, unpackNotify_value hcarries.type hcarries.bits⟩

/-- A registered point whose union is full of ones. -/
def fullPoint : IndurtdbPoint :=
  { IndurtdbPoint.zero with
    name := CStr.ofBytes [97]
    access := 3
    value := List.replicate 32 255 }

/-- The daemon with that point under the id 0. -/
def zeroRegistered : Rtdbd :=
  { entered with h := { entered.h with seg := entered.h.seg.setPoint 0 fullPoint } }

/-- The entry of a call that writes -7. -/
def minusSeven : Client.IrtcliEntry :=
  ⟨0, Client.irtcliTypeInt32, (-7 : Int32).toInt64.toUInt64, 0⟩

theorem readsBack_minusSeven :
    ReadsBack zeroRegistered (handleRequest zeroRegistered 0
        ⟨frameBytes rtdbdOpWrite minusSeven.toBytes, none, []⟩ operator).d 0 (.int32 (-7)) ∧
      (¬ (Numeric.int32 (-7)).Signalling → (Numeric.int32 (-7)).quieted = .int32 (-7)) :=
  readsBack (.irtcli (.int32 (-7))) (by decide +kernel)

/-- A signalling NaN is read back as the quiet one. -/
theorem not_readsBack :
    ¬ ∀ (d : Rtdbd) (slot : Nat) (env : Env) (id : UInt32) (sourceTsNs : UInt64) (v : Numeric)
      (payload : List UInt8), WriteSent id sourceTsNs v payload →
        okBody (readResponse (handleRequest d slot
          ⟨frameBytes rtdbdOpWrite payload, none, []⟩ env).sock.output) ≠ none →
        ReadsBack d (handleRequest d slot ⟨frameBytes rtdbdOpWrite payload, none, []⟩ env).d id
          v := by
  intro hall
  have hback := hall zeroRegistered 0 operator 0 0 (.float 0x7f800001) _ .python
    (by decide +kernel)
  have hread : (askPoint (handleRequest zeroRegistered 0
      ⟨frameBytes rtdbdOpWrite (packWriteReq 0 (.float 0x7f800001) 0), none, []⟩ operator).d 0
        operator 0).map (fun body => (unpackGetResp body).value) = some (.float 0x7fc00001) := by
    decide +kernel
  obtain ⟨body, hbody, hvalue⟩ := Option.map_eq_some_iff.mp hread
  have hsame := (hback.got 0 operator body hbody).symm.trans hvalue
  exact absurd hsame (by decide)

end InduRtdb.Monitor
