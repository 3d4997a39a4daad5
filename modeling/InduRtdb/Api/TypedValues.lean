/-
  Api/TypedValues.lean --- the store of values behind a handle: what is read is what
  was written last.

  Source: `src/api/indurtdb.c` (`indurtdb_h_write_*`, `indurtdb_h_write_range_*`,
  `indurtdb_h_read_*`, `indurtdb_h_read_range`, `indurtdb_h_set_quality`) and
  `src/core/irt_point_manager.c`.

  Calls are made one after another.  A read does not look at the type of the point: it
  takes the member it is named after out of the union.  A write replaces the bytes of
  its own member only, and it is also carried out on an id that is not registered.
-/
import InduRtdb.Api.Contended
import InduRtdb.Api.Frames
import InduRtdb.Core.Timeouts

set_option autoImplicit false

namespace InduRtdb.Api

open InduRtdb.Core InduRtdb.Lib

/-! ## Writing -/

/-- `indurtdb_h_write_bool_ts` and its siblings for the other types; without a time stamp
of the source, `sourceTsNs` is 0. -/
def indurtdbHWriteTs (h : IndurtdbH) (id : Nat) (value : WriteValue) (sourceTsNs now : Nat) :
    Rc × IndurtdbH :=
  indurtdbHWriteQualityTs h id value.type value.bytes sourceTsNs indurtdbQualityGood now

/-- The loop of `indurtdb_h_write_range_bool` and its siblings, at the value `i`. -/
def writeRangeLoop (startId : UInt32) (clock : Nat → Nat) :
    List WriteValue → Nat → IndurtdbH → Nat × IndurtdbH
  | [], i, h => (i, h)
  | value :: values, i, h =>
      match indurtdbHWriteTs h (u32 (startId.toNat + i)) value 0 (clock i) with
      | (.ok, h) => writeRangeLoop startId clock values (i + 1) h
      | (_, h) => (i, h)

/-- `indurtdb_h_write_range_bool` and its siblings: the number of values written. -/
def indurtdbHWriteRange (h : IndurtdbH) (startId : UInt32) (values : List WriteValue)
    (clock : Nat → Nat) : Nat × IndurtdbH :=
  writeRangeLoop startId clock values 0 h

/-- `indurtdb_h_set_quality`, with nobody else at the lock. -/
def indurtdbHSetQuality (h : IndurtdbH) (id : Nat) (quality : UInt8) : Int × IndurtdbH :=
  let done := setQualityAmong id quality (.start h [])
  (done.1, done.2.h)

/-- `indurtdb_h_check_timeouts`: the number of points marked. -/
def indurtdbHCheckTimeouts (h : IndurtdbH) (now timeoutNs : Nat) : Nat × IndurtdbH :=
  match irtPmCheckTimeouts now timeoutNs h.seg with
  | some scan => (scan.detected.length, { h with seg := scan.seg })
  | none => (0, h)

/-! ## Reading -/

/-- The read functions of one point; that of a string has a buffer of `bufferSize`
bytes. -/
inductive ReadCall where
  | bool
  | int32
  | double
  | string (bufferSize : Nat)
  | int64
  | uint32
  | float
  deriving DecidableEq

/-- The member of the union that is read.  A string ends at its first NUL, and
`snprintf` leaves room for another. -/
def ReadCall.member (value : List UInt8) : ReadCall → WriteValue
  | .bool => .bool (value.headD 0 != 0)
  | .int32 => .int32 (UInt32.ofNat (ofLe (value.take 4)))
  | .double => .double (UInt64.ofNat (ofLe (value.take 8)))
  | .string bufferSize => .string ((CStr.ofBytes value).strncpy (bufferSize - 1))
  | .int64 => .int64 (UInt64.ofNat (ofLe (value.take 8)))
  | .uint32 => .uint32 (UInt32.ofNat (ofLe (value.take 4)))
  | .float => .float (UInt32.ofNat (ofLe (value.take 4)))

/-- `indurtdb_h_read_bool` and its siblings. -/
def indurtdbHRead (h : IndurtdbH) (id : Nat) (call : ReadCall) : Except Rc WriteValue :=
  if call = .string 0 then .error .errArg
  else
    match indurtdbHReadPoint h id with
    | none => .error .errArg
    | some p => .ok (call.member p.value)

/-- The loop of `indurtdb_h_read_range`, with `n` points ahead. -/
def readRangeLoop (h : IndurtdbH) (startId : UInt32) : Nat → Nat → Except Rc (List IndurtdbPoint)
  | 0, _ => .ok []
  | n + 1, i =>
      match indurtdbHReadPoint h (u32 (startId.toNat + i)) with
      | none => .error .errArg
      | some p => (readRangeLoop h startId n (i + 1)).map (p :: ·)

/-- `indurtdb_h_read_range`: the points that fit the buffer. -/
def indurtdbHReadRange (h : IndurtdbH) (startId : UInt32) (count outCap : Nat) :
    Except Rc (List IndurtdbPoint) :=
  if count = 0 then .error .errArg else readRangeLoop h startId (min count outCap) 0

/-! ## Calls -/

/-- The calls that change points.  `clock i` is the wall clock at the value `i` of a
range. -/
inductive ValueCall where
  | write (id : Nat) (value : WriteValue) (sourceTsNs now : Nat)
  | writeQuality (id : Nat) (type : UInt8) (value : List UInt8) (sourceTsNs : Nat)
      (quality : UInt8) (now : Nat)
  | writeRange (startId : UInt32) (values : List WriteValue) (clock : Nat → Nat)
  | setQuality (id : Nat) (quality : UInt8)
  | checkTimeouts (now timeoutNs : Nat)
  | setMeta (id : Nat) (m : IndurtdbMeta)
  | create (partition : UInt32) (id : Nat) (name : CStr) (type access : Int)
  | delete (partition : UInt32) (id : Nat)
  | rename (partition : UInt32) (id : Nat) (name : CStr)

/-- What the call returns, and the handle behind it. -/
def ValueCall.run (h : IndurtdbH) : ValueCall → Int × IndurtdbH
  | .write id value sourceTsNs now =>
      let done := indurtdbHWriteTs h id value sourceTsNs now
      (done.1.code, done.2)
  | .writeQuality id type value sourceTsNs quality now =>
      let done := indurtdbHWriteQualityTs h id type value sourceTsNs quality now
      (done.1.code, done.2)
  | .writeRange startId values clock =>
      let done := indurtdbHWriteRange h startId values clock
      (done.1, done.2)
  | .setQuality id quality => indurtdbHSetQuality h id quality
  | .checkTimeouts now timeoutNs =>
      let done := indurtdbHCheckTimeouts h now timeoutNs
      (done.1, done.2)
  | .setMeta id m =>
      let done := indurtdbHSetMeta h id m
      (done.1.code, done.2)
  | .create partition id name type access =>
      let done := indurtdbHCreatePointIn h partition id name type access
      (done.1.code, done.2)
  | .delete partition id =>
      let done := indurtdbHDeletePointIn h partition id
      (done.1.code, done.2)
  | .rename partition id name =>
      let done := indurtdbHRenamePointIn h partition id name
      (done.1.code, done.2)

/-! ## What the store is for -/

/-- What the store tells of a point beside its value. -/
structure Stamps where
  quality : UInt8
  timestampNs : Nat
  sourceTimestampNs : Nat

/-- A point of the abstract store: its type, the bytes its value begins with, and what
else is told of it.  Of a point just created nothing else is: its time stamps are those
of the former occupant. -/
structure Cell where
  type : UInt8
  image : List UInt8
  told : Option Stamps

/-- The bytes that a write of this type stores, if the type has a value. -/
def storedImage (type : UInt8) (value : List UInt8) : Option (List UInt8) :=
  if type.toNat = indurtdbTypeBool then some (value.take 1)
  else if type.toNat = indurtdbTypeInt32 then some (value.take 4)
  else if type.toNat = indurtdbTypeInt64 then some (value.take 8)
  else if type.toNat = indurtdbTypeUint32 then some (value.take 4)
  else if type.toNat = indurtdbTypeFloat then some (value.take 4)
  else if type.toNat = indurtdbTypeDouble then some (value.take 8)
  else if type.toNat = indurtdbTypeString then
    some (charArray 32 ((CStr.ofBytes value).strncpy 31))
  else none

namespace Cell

/-- A write of this type. -/
def written (c : Cell) (type : UInt8) (value : List UInt8) (told : Stamps) : Cell where
  type := type
  image := (storedImage type value).getD c.image
  told := some told

/-- A point just created. -/
def created (type : UInt8) : Cell := ⟨type, List.replicate 32 0, none⟩

/-- Another quality. -/
def rated (c : Cell) (quality : UInt8) : Cell :=
  { c with told := c.told.map fun t => { t with quality := quality } }

/-- A scan for points that were not written for `timeoutNs`. -/
def aged (c : Cell) (now timeoutNs : Nat) : Cell :=
  { c with told := c.told.map fun t =>
      if 0 < timeoutNs ∧ t.timestampNs ≠ 0 ∧ t.timestampNs < now ∧
          timeoutNs < now - t.timestampNs ∧ t.quality ≠ indurtdbQualityTimeout then
        { t with quality := qualityTimedOut t.quality }
      else t }

/-- The cell of a record. -/
def ofPoint (p : IndurtdbPoint) : Cell :=
  ⟨p.type, p.value, some ⟨p.quality, p.timestampNs, p.sourceTimestampNs⟩⟩

end Cell

/-- The values of a range, from `startId` on. -/
def storeRange (startId : Nat) (clock : Nat → Nat) :
    List WriteValue → Nat → (Nat → Cell) → Nat → Cell
  | [], _, store => store
  | value :: values, i, store =>
      storeRange startId clock values (i + 1)
        (Function.update store (startId + i) ((store (startId + i)).written value.type value.bytes
          ⟨indurtdbQualityGood, clock i, 0⟩))

/-- The abstract store behind a call that has returned `rc`. -/
def storeAfter (store : Nat → Cell) (rc : Int) : ValueCall → Nat → Cell
  | .write id value sourceTsNs now =>
      if rc = 0 then
        Function.update store id ((store id).written value.type value.bytes
          ⟨indurtdbQualityGood, now, sourceTsNs⟩)
      else store
  | .writeQuality id type value sourceTsNs quality now =>
      if rc = 0 then
        Function.update store id ((store id).written type value ⟨quality, now, sourceTsNs⟩)
      else store
  | .writeRange startId values clock =>
      storeRange startId.toNat clock (values.take rc.toNat) 0 store
  | .setQuality id quality =>
      if rc = 0 then Function.update store id ((store id).rated quality) else store
  | .checkTimeouts now timeoutNs => fun id => (store id).aged now timeoutNs
  | .create _ id _ type _ =>
      if rc = 0 then Function.update store id (.created (.ofNat type.toNat)) else store
  | _ => store

/-- A handle and the abstract store go through a sequence of calls. -/
def runCalls : List ValueCall → IndurtdbH → (Nat → Cell) → IndurtdbH × (Nat → Cell)
  | [], h, store => (h, store)
  | call :: calls, h, store =>
      runCalls calls (call.run h).2 (storeAfter store (call.run h).1 call)

/-- The record shows what is told of the point. -/
structure Shows (p : IndurtdbPoint) (c : Cell) : Prop where
  type : p.type = c.type
  value : c.image <+: p.value
  told : ∀ t, c.told = some t → p.quality = t.quality ∧ p.timestampNs = t.timestampNs ∧
    p.sourceTimestampNs = t.sourceTimestampNs

/-- The lock is free, and every registered point shows its cell. -/
structure Agrees (h : IndurtdbH) (store : Nat → Cell) : Prop where
  free : h.seg.hdr.writeSeq % 2 = 0
  bound : h.seg.hdr.maxPoints < 2 ^ 32
  shows : ∀ id, pmValidateId h.seg id → (h.seg.points id).name ≠ CStr.empty →
    Shows (h.seg.points id) (store id)

/-! ## The union -/

/-- The bytes of a string are stored one after the other. -/
theorem storeString_value (byte : Nat → UInt8) (n : Nat) (p : IndurtdbPoint) :
    ((List.map (fun i => storeValue i [byte i]) (List.range n)).foldl (fun p f => f p) p).value =
      (List.range n).map byte ++ p.value.drop n := by
  induction n with
  | zero => rfl
  | succ n ih =>
      rw [List.range_succ, List.map_append, List.foldl_append]
      simp only [List.map_cons, List.map_nil, List.foldl_cons, List.foldl_nil, storeValue]
      rw [ih, List.map_append, List.append_assoc, List.append_assoc]
      congr 1
      · rw [List.take_left' (by simp)]
      · rw [List.drop_append]
        simp

/-- The array of a string, byte by byte. -/
theorem map_getD_charArray (bytes : CStr) (n : Nat) :
    (List.range n).map (fun i => bytes.bytes.getD i 0) ++ [0] =
      charArray (n + 1) (bytes.strncpy n) := by
  refine List.ext_getElem? fun i => ?_
  simp only [charArray, CStr.strncpy, List.length_take, List.take_take]
  rcases Nat.lt_trichotomy i n with hlt | rfl | hgt
  · rw [List.getElem?_append_left (by simpa using hlt), List.getElem?_map,
      List.getElem?_range hlt, Option.map_some]
    rcases Nat.lt_or_ge i bytes.bytes.length with hin | hout
    · rw [List.getElem?_append_left (by simp; omega), List.getElem?_take_of_lt (by omega),
        List.getD_eq_getElem?_getD, List.getElem?_eq_getElem hin, Option.getD_some]
    · rw [List.getElem?_append_right (by simp; omega), List.getElem?_replicate, if_pos (by simp; omega),
        List.getD_eq_getElem?_getD, List.getElem?_eq_none hout, Option.getD_none]
  · rw [List.getElem?_append_right (by simp), List.getElem?_append_right (by simp),
      List.getElem?_replicate, if_pos (by simp; omega)]
    simp
  · rw [List.getElem?_append_right (by simp; omega), List.getElem?_append_right (by simp; omega),
      List.getElem?_replicate, if_neg (by simp; omega)]
    simp
    omega

/-- What the stores of a write leave of the union. -/
def overlaid (type : UInt8) (value old : List UInt8) : List UInt8 :=
  match storedImage type value with
  | none => old
  | some image => image ++ old.drop image.length

theorem pmValueStores_value (type : UInt8) (value : List UInt8) (p : IndurtdbPoint) :
    ((pmValueStores type value).foldl (fun p f => f p) p).value = overlaid type value p.value := by
  have hone : ∀ bytes : List UInt8,
      ([storeValue 0 bytes].foldl (fun p f => f p) p).value = bytes ++ p.value.drop bytes.length := by
    intro bytes
    simp [storeValue]
  unfold pmValueStores overlaid storedImage
  split_ifs
  · exact hone _
  · exact hone _
  · exact hone _
  · exact hone _
  · exact hone _
  · exact hone _
  · have hloop := storeString_value (fun i => (CStr.ofBytes value).bytes.getD i 0) 31 p
    rw [List.foldl_append]
    simp only [List.foldl_cons, List.foldl_nil, storeValue, hloop]
    rw [List.take_left' (by simp), map_getD_charArray, List.drop_append]
    have hlength : (charArray 32 ((CStr.ofBytes value).strncpy 31)).length = 32 := by
      rw [← map_getD_charArray]
      simp
    rw [hlength]
    simp
  · rfl

/-! ## One record -/

/-- The record a write leaves. -/
def writtenPoint (old : IndurtdbPoint) (type : UInt8) (value : List UInt8) (told : Stamps) :
    IndurtdbPoint :=
  { old with
    type := type
    value := overlaid type value old.value
    timestampNs := told.timestampNs
    quality := told.quality
    sourceTimestampNs := told.sourceTimestampNs }

/-- The stores of a value leave another value and nothing else. -/
theorem pmValueStores_eq (type : UInt8) (value : List UInt8) (p : IndurtdbPoint) :
    (pmValueStores type value).foldl (fun p f => f p) p =
      { p with value := overlaid type value p.value } := by
  have hvalue := pmValueStores_value type value p
  have hrest := foldl_kept (fun p : IndurtdbPoint => { p with value := [] }) _
    (pmValueStores_kept (fun p : IndurtdbPoint => { p with value := [] }) (fun _ _ _ => rfl)
      type value) p
  rw [← hvalue]
  generalize (pmValueStores type value).foldl (fun p f => f p) p = q at hrest ⊢
  cases q
  cases p
  simp only [IndurtdbPoint.mk.injEq, true_and] at hrest
  simp only [IndurtdbPoint.mk.injEq, true_and]
  exact hrest

/-- The section of a write to a point that is not read-only. -/
theorem pmWriteLocked_eq (seg : Segment) (id : Nat) (type : UInt8) (value : List UInt8)
    (sourceTsNs : Nat) (quality : UInt8) (now : Nat) :
    pmWriteLocked seg id type value sourceTsNs quality now =
      if (seg.points id).access = indurtdbAccessReadOnly then (.errReadOnly, seg)
      else
        (.ok, seg.setPoint id
          (writtenPoint (seg.points id) type value ⟨quality, now, sourceTsNs⟩)) := by
  unfold pmWriteLocked pmWriteBody
  rw [Prog.run_load]
  split_ifs
  · rfl
  · rw [storePoint_run, List.append_assoc, List.singleton_append, List.foldl_cons,
      List.foldl_append, pmValueStores_eq]
    rfl

/-- A write that succeeds leaves the record written, and any other one leaves it alone. -/
theorem writeQuality_stores (h : IndurtdbH) (id : Nat) (type : UInt8) (value : List UInt8)
    (sourceTsNs : Nat) (quality : UInt8) (now : Nat) :
    ∃ p, NameStores h id p (indurtdbHWriteQualityTs h id type value sourceTsNs quality now) ∧
      if (indurtdbHWriteQualityTs h id type value sourceTsNs quality now).1 = .ok then
        pmValidateId h.seg id ∧
          p = writtenPoint (h.seg.points id) type value ⟨quality, now, sourceTsNs⟩
      else p = h.seg.points id := by
  unfold indurtdbHWriteQualityTs
  split
  next hid =>
    rcases withWriteLock_cases h.seg fun seg =>
        pmWriteLocked seg id type value sourceTsNs quality now with
      ⟨-, hbusy⟩ | ⟨heven, w, w', hw', hlocked⟩
    · rw [hbusy]
      exact ⟨_, .rejected h id _, rfl⟩
    · rw [hlocked, pmWriteLocked_eq]
      have hkept := (Stores.refl id (h.seg.setWriteSeq w)).locked w'
      have hstored := (Stores.setPoint (h.seg.setWriteSeq w) id
        (writtenPoint (h.seg.points id) type value ⟨quality, now, sourceTsNs⟩)).locked w'
      rcases Decidable.em (((h.seg.setWriteSeq w).points id).access = indurtdbAccessReadOnly) with
        hreadOnly | hfree
      · rw [if_pos hreadOnly]
        exact ⟨_, ⟨rfl, hw'.trans heven.symm, hkept⟩, rfl⟩
      · rw [if_neg hfree]
        refine ⟨_, ⟨rfl, hw'.trans heven.symm, ?_⟩, hid, rfl⟩
        exact ⟨hstored.points, hstored.metas, hstored.maxPoints, hstored.offPoints,
          hstored.offMeta⟩
  next => exact ⟨_, .rejected h id _, rfl⟩

/-- Another quality, or the record as it is. -/
theorem setQuality_stores (h : IndurtdbH) (id : Nat) (quality : UInt8) :
    ∃ p, Stores id p h.seg (indurtdbHSetQuality h id quality).2.seg ∧
      (indurtdbHSetQuality h id quality).2.seg.hdr.writeSeq % 2 = h.seg.hdr.writeSeq % 2 ∧
      p = if (indurtdbHSetQuality h id quality).1 = 0 then
          { h.seg.points id with quality := quality }
        else h.seg.points id := by
  unfold indurtdbHSetQuality setQualityAmong irtPmSetQuality
  split
  next => exact ⟨_, .refl id h.seg, rfl, rfl⟩
  next =>
    rcases Nat.mod_two_eq_zero_or_one h.seg.hdr.writeSeq with heven | hodd
    · obtain ⟨met, hrun⟩ := locked_even (c := .start h []) rfl 0 (fun seg =>
        ((), seg.setPoint id { seg.points id with quality := quality })) heven
      rw [hrun]
      refine ⟨_, (Stores.setPoint (h.seg.setWriteSeq _) id _).locked _, ?_, rfl⟩
      exact (irtSeqlockWriteEnd_even heven).trans heven.symm
    · have hrun := locked_odd (c := .start h []) rfl 1 (fun seg =>
        ((), seg.setPoint id { seg.points id with quality := quality })) hodd
      rw [hrun]
      exact ⟨_, .refl id h.seg, rfl, rfl⟩

/-! ## What is shown -/

/-- A write shows in the record. -/
theorem Shows.written {p : IndurtdbPoint} {c : Cell} (h : Shows p c) (type : UInt8)
    (value : List UInt8) (told : Stamps) :
    Shows (writtenPoint p type value told) (c.written type value told) := by
  refine ⟨rfl, ?_, ?_⟩
  · unfold Cell.written writtenPoint overlaid
    dsimp only
    cases storedImage type value with
    | none => exact h.value
    | some image => exact List.prefix_append image _
  · rintro t ht
    obtain rfl := Option.some.inj ht
    exact ⟨rfl, rfl, rfl⟩

theorem Shows.rated {p : IndurtdbPoint} {c : Cell} (h : Shows p c) (quality : UInt8) :
    Shows { p with quality := quality } (c.rated quality) := by
  refine ⟨h.type, h.value, ?_⟩
  rintro t ht
  obtain ⟨t', ht', rfl⟩ := Option.map_eq_some_iff.mp ht
  exact ⟨rfl, (h.told t' ht').2⟩

/-- A scan shows in the record. -/
theorem Shows.aged {p : IndurtdbPoint} {c : Cell} (h : Shows p c) {now timeoutNs : Nat} :
    Shows (if 0 < timeoutNs ∧ Marks now timeoutNs p then p.timedOut else p)
      (c.aged now timeoutNs) := by
  have hmarked : Shows (if 0 < timeoutNs ∧ Marks now timeoutNs p then p.timedOut else p)
      { c with told := none } := by
    split
    · exact ⟨h.type, h.value, fun t ht => by cases ht⟩
    · exact ⟨h.type, h.value, fun t ht => by cases ht⟩
  refine ⟨hmarked.type, hmarked.value, ?_⟩
  rintro t ht
  obtain ⟨t', ht', rfl⟩ := Option.map_eq_some_iff.mp ht
  obtain ⟨hquality, htimestamp, hsource⟩ := h.told t' ht'
  have hiff : (0 < timeoutNs ∧ Marks now timeoutNs p) ↔ 0 < timeoutNs ∧ t'.timestampNs ≠ 0 ∧
      t'.timestampNs < now ∧ timeoutNs < now - t'.timestampNs ∧
      t'.quality ≠ indurtdbQualityTimeout := by
    rw [Marks, Stale, hquality, htimestamp, and_assoc, and_assoc]
  rcases Decidable.em (0 < timeoutNs ∧ Marks now timeoutNs p) with hmarks | hnot
  · rw [if_pos hmarks, if_pos (hiff.mp hmarks)]
    exact ⟨congrArg qualityTimedOut hquality, htimestamp, hsource⟩
  · rw [if_neg hnot, if_neg fun h => hnot (hiff.mpr h)]
    exact ⟨hquality, htimestamp, hsource⟩

/-! ## One call -/

theorem Rc.code_eq_zero_iff (rc : Rc) : rc.code = 0 ↔ rc = .ok := by
  cases rc with
  | _ => simp [Rc.code]

namespace Agrees

variable {h : IndurtdbH} {store : Nat → Cell}

/-- A call that stores into one record. -/
theorem storeInto (hagrees : Agrees h store) {h' : IndurtdbH} {store' : Nat → Cell} {id : Nat}
    {p : IndurtdbPoint} (hstores : Stores id p h.seg h'.seg)
    (hparity : h'.seg.hdr.writeSeq % 2 = h.seg.hdr.writeSeq % 2)
    (hother : ∀ j, j ≠ id → store' j = store j)
    (hshows : pmValidateId h.seg id → p.name ≠ CStr.empty → Shows p (store' id)) :
    Agrees h' store' where
  free := hparity.trans hagrees.free
  bound := hstores.maxPoints ▸ hagrees.bound
  shows := by
    intro j hj hnamed
    unfold pmValidateId at hj
    rw [hstores.maxPoints, hstores.offPoints] at hj
    rcases eq_or_ne j id with rfl | hne
    · rw [hstores.at_id] at hnamed ⊢
      exact hshows hj hnamed
    · rw [hstores.at_other hne] at hnamed ⊢
      rw [hother j hne]
      exact hagrees.shows j hj hnamed

/-- A call that leaves the record as it is, or unregistered. -/
theorem storeNothing (hagrees : Agrees h store) {h' : IndurtdbH} {id : Nat} {p : IndurtdbPoint}
    (hstores : Stores id p h.seg h'.seg)
    (hparity : h'.seg.hdr.writeSeq % 2 = h.seg.hdr.writeSeq % 2)
    (hsame : p = h.seg.points id ∨ p.name = CStr.empty) : Agrees h' store := by
  refine hagrees.storeInto hstores hparity (fun _ _ => rfl) fun hid hnamed => ?_
  rcases hsame with rfl | hempty
  · exact hagrees.shows id hid hnamed
  · exact absurd hempty hnamed

theorem writeQuality (hagrees : Agrees h store) (id : Nat) (type : UInt8) (value : List UInt8)
    (sourceTsNs : Nat) (quality : UInt8) (now : Nat) :
    Agrees (indurtdbHWriteQualityTs h id type value sourceTsNs quality now).2
      (if (indurtdbHWriteQualityTs h id type value sourceTsNs quality now).1 = .ok then
        Function.update store id ((store id).written type value ⟨quality, now, sourceTsNs⟩)
      else store) := by
  obtain ⟨p, hstores, hp⟩ := writeQuality_stores h id type value sourceTsNs quality now
  split
  next hok =>
    rw [if_pos hok] at hp
    obtain ⟨hid, rfl⟩ := hp
    refine hagrees.storeInto hstores.stores hstores.parity
      (fun j hne => Function.update_of_ne hne _ _) fun _ hnamed => ?_
    rw [Function.update_self]
    exact (hagrees.shows id hid hnamed).written type value _
  next hfail =>
    rw [if_neg hfail] at hp
    exact hagrees.storeNothing hstores.stores hstores.parity (.inl hp)

/-- A range writes its values one after the other, as far as the writes succeed. -/
theorem writeRange (startId : UInt32) (clock : Nat → Nat) (values : List WriteValue) :
    ∀ (i : Nat) (h : IndurtdbH) (store : Nat → Cell), Agrees h store →
      startId.toNat + i < 2 ^ 32 →
      i ≤ (writeRangeLoop startId clock values i h).1 ∧
        Agrees (writeRangeLoop startId clock values i h).2
          (storeRange startId.toNat clock
            (values.take ((writeRangeLoop startId clock values i h).1 - i)) i store) := by
  induction values with
  | nil =>
      intro i h store hagrees _
      rw [List.take_nil]
      exact ⟨Nat.le_refl i, hagrees⟩
  | cons value values ih =>
      intro i h store hagrees hlt
      have hplace : u32 (startId.toNat + i) = startId.toNat + i := Nat.mod_eq_of_lt hlt
      have hwrite := hagrees.writeQuality (startId.toNat + i) value.type value.bytes 0
        indurtdbQualityGood (clock i)
      obtain ⟨p, hstores, hp⟩ := writeQuality_stores h (startId.toNat + i) value.type value.bytes 0
        indurtdbQualityGood (clock i)
      unfold writeRangeLoop
      rw [hplace, indurtdbHWriteTs]
      generalize indurtdbHWriteQualityTs h (startId.toNat + i) value.type value.bytes 0
        indurtdbQualityGood (clock i) = done at hwrite hstores hp ⊢
      obtain ⟨rc, h'⟩ := done
      have hfailed : rc ≠ .ok → i ≤ i ∧ Agrees h'
          (storeRange startId.toNat clock ((value :: values).take (i - i)) i store) := by
        intro hrc
        rw [if_neg hrc] at hwrite
        rw [Nat.sub_self]
        exact ⟨Nat.le_refl i, hwrite⟩
      cases rc with
      | ok =>
          rw [if_pos rfl] at hwrite hp
          have hnext : startId.toNat + (i + 1) < 2 ^ 32 := by
            have hid := hp.1.1
            have hbound := hagrees.bound
            omega
          obtain ⟨hle, hrest⟩ := ih (i + 1) h' _ hwrite hnext
          have htake : (writeRangeLoop startId clock values (i + 1) h').1 - i =
              (writeRangeLoop startId clock values (i + 1) h').1 - (i + 1) + 1 := by omega
          dsimp only
          rw [htake, List.take_succ_cons]
          exact ⟨by omega, hrest⟩
      | errArg => exact hfailed (by decide)
      | errNotFound => exact hfailed (by decide)
      | errFull => exact hfailed (by decide)
      | errNotInit => exact hfailed (by decide)
      | errBusy => exact hfailed (by decide)
      | errReadOnly => exact hfailed (by decide)

theorem setQuality (hagrees : Agrees h store) (id : Nat) (quality : UInt8) :
    Agrees (indurtdbHSetQuality h id quality).2
      (if (indurtdbHSetQuality h id quality).1 = 0 then
        Function.update store id ((store id).rated quality) else store) := by
  obtain ⟨p, hstores, hparity, hp⟩ := setQuality_stores h id quality
  split
  next hok =>
    rw [if_pos hok] at hp
    subst hp
    refine hagrees.storeInto hstores hparity (fun j hne => Function.update_of_ne hne _ _)
      fun hid hnamed => ?_
    rw [Function.update_self]
    exact (hagrees.shows id hid hnamed).rated quality
  next hfail =>
    rw [if_neg hfail] at hp
    exact hagrees.storeNothing hstores hparity (.inl hp)

theorem checkTimeouts (hagrees : Agrees h store) (now timeoutNs : Nat) :
    Agrees (indurtdbHCheckTimeouts h now timeoutNs).2 fun id => (store id).aged now timeoutNs := by
  have hscan : ∃ scan, irtPmCheckTimeouts now timeoutNs h.seg = some scan ∧
      scan.seg.hdr.writeSeq % 2 = 0 ∧ scan.seg.hdr.maxPoints = h.seg.hdr.maxPoints ∧
      scan.seg.hdr.offPoints = h.seg.hdr.offPoints ∧
      ∀ id, pmValidateId h.seg id → scan.seg.points id =
        if 0 < timeoutNs ∧ Marks now timeoutNs (h.seg.points id) then (h.seg.points id).timedOut
        else h.seg.points id := by
    have hidle : (∀ id, pmValidateId h.seg id →
        ¬ (0 < timeoutNs ∧ Marks now timeoutNs (h.seg.points id))) →
        ∃ scan : PmScan, some (PmScan.mk [] h.seg) = some scan ∧
          scan.seg.hdr.writeSeq % 2 = 0 ∧ scan.seg.hdr.maxPoints = h.seg.hdr.maxPoints ∧
          scan.seg.hdr.offPoints = h.seg.hdr.offPoints ∧
          ∀ id, pmValidateId h.seg id → scan.seg.points id =
            if 0 < timeoutNs ∧ Marks now timeoutNs (h.seg.points id) then
              (h.seg.points id).timedOut
            else h.seg.points id :=
      fun hnone => ⟨_, rfl, hagrees.free, rfl, rfl, fun id hid => (if_neg (hnone id hid)).symm⟩
    rcases Nat.eq_zero_or_pos timeoutNs with rfl | htimeout
    · rw [irtPmCheckTimeouts, if_pos rfl]
      exact hidle fun _ _ hmarks => absurd hmarks.1 (Nat.lt_irrefl 0)
    · rcases Decidable.em (h.seg.hdr.offPoints = 0) with hpoints | hpoints
      · rw [irtPmCheckTimeouts, if_neg (Nat.ne_of_gt htimeout), if_pos hpoints]
        exact hidle fun _ hid _ => hid.2 hpoints
      · rcases Nat.eq_zero_or_pos now with rfl | hnow
        · rw [irtPmCheckTimeouts, if_neg (Nat.ne_of_gt htimeout), if_neg hpoints, if_pos rfl]
          exact hidle fun _ _ hmarks => absurd hmarks.2.1.2.1 (Nat.not_lt_zero _)
        · obtain ⟨scan, hscan, -, hturned, hall⟩ :=
            irtPmCheckTimeouts_spec hnow htimeout hpoints hagrees.free
          refine ⟨scan, hscan, hturned.free, hturned.maxPoints, hturned.offPoints, ?_⟩
          intro id hid
          rw [hall id]
          exact if_congr ⟨fun h => ⟨htimeout, h.2⟩, fun h => ⟨hid.1, h.2⟩⟩ rfl rfl
  obtain ⟨scan, hrun, hfree, hmax, hoff, hall⟩ := hscan
  unfold indurtdbHCheckTimeouts
  rw [hrun]
  refine ⟨hfree, hmax ▸ hagrees.bound, fun id hid hnamed => ?_⟩
  have hid : pmValidateId h.seg id := by
    unfold pmValidateId at hid ⊢
    rw [← hmax, ← hoff]
    exact hid
  have hpoint := hall id hid
  have hkept : (scan.seg.points id).name = (h.seg.points id).name := by
    rw [hpoint]
    split
    · rfl
    · rfl
  dsimp only at hnamed ⊢
  rw [hkept] at hnamed
  rw [hpoint]
  exact (hagrees.shows id hid hnamed).aged

/-- The metadata are not part of the records. -/
theorem setMeta (hagrees : Agrees h store) (id : Nat) (m : IndurtdbMeta) :
    Agrees (indurtdbHSetMeta h id m).2 store := by
  rcases setMeta_stores h id m with hsame | ⟨-, -, w, hw, hstored⟩
  · rw [hsame]
    exact hagrees
  · rw [hstored]
    exact ⟨hw, hagrees.bound, hagrees.shows⟩

theorem create (hagrees : Agrees h store) (partition : UInt32) (id : Nat) (name : CStr)
    (type access : Int) :
    Agrees (indurtdbHCreatePointIn h partition id name type access).2
      (if (indurtdbHCreatePointIn h partition id name type access).1 = .ok then
        Function.update store id (.created (.ofNat type.toNat)) else store) := by
  have hcreate := create_stores h partition id name type access
  split
  next hok =>
    obtain ⟨-, -, -, -, -, -, hstores⟩ := hcreate.done hok
    refine hagrees.storeInto hstores hcreate.parity (fun j hne => Function.update_of_ne hne _ _)
      fun _ _ => ?_
    rw [Function.update_self]
    exact ⟨rfl, List.prefix_refl _, fun t ht => by cases ht⟩
  next hfail =>
    rcases hcreate.failed hfail with hstores | ⟨-, p, hname, hstores⟩
    · exact hagrees.storeNothing hstores hcreate.parity (.inl rfl)
    · exact hagrees.storeNothing hstores hcreate.parity (.inr hname)

theorem delete (hagrees : Agrees h store) (partition : UInt32) (id : Nat) :
    Agrees (indurtdbHDeletePointIn h partition id).2 store := by
  obtain ⟨p, hstores, hp⟩ := delete_stores h partition id
  refine hagrees.storeNothing hstores.stores hstores.parity ?_
  rcases hp with hsame | rfl
  · exact .inl hsame
  · exact .inr rfl

/-- A renaming keeps all but the name. -/
theorem rename (hagrees : Agrees h store) (partition : UInt32) (id : Nat) (name : CStr) :
    Agrees (indurtdbHRenamePointIn h partition id name).2 store := by
  obtain ⟨p, hstores, hp⟩ := rename_stores h partition id name
  refine hagrees.storeInto hstores.stores hstores.parity (fun _ _ => rfl) fun hid _ => ?_
  rcases hp with rfl | ⟨hnamed, rfl⟩
  · exact hagrees.shows id hid ‹_›
  · have hshown := hagrees.shows id hid hnamed
    exact ⟨hshown.type, hshown.value, hshown.told⟩

/-- **One call.** -/
theorem run (hagrees : Agrees h store) (call : ValueCall) :
    Agrees (call.run h).2 (storeAfter store (call.run h).1 call) := by
  cases call with
  | write id value sourceTsNs now =>
      simp only [ValueCall.run, storeAfter, Rc.code_eq_zero_iff]
      exact hagrees.writeQuality id value.type value.bytes sourceTsNs indurtdbQualityGood now
  | writeQuality id type value sourceTsNs quality now =>
      simp only [ValueCall.run, storeAfter, Rc.code_eq_zero_iff]
      exact hagrees.writeQuality id type value sourceTsNs quality now
  | writeRange startId values clock =>
      have hrange := (hagrees.writeRange startId clock values 0 h store startId.toNat_lt).2
      simpa only [ValueCall.run, storeAfter, indurtdbHWriteRange, Int.toNat_natCast, Nat.sub_zero]
        using hrange
  | setQuality id quality => exact hagrees.setQuality id quality
  | checkTimeouts now timeoutNs => exact hagrees.checkTimeouts now timeoutNs
  | setMeta id m => exact hagrees.setMeta id m
  | create partition id name type access =>
      simp only [ValueCall.run, storeAfter, Rc.code_eq_zero_iff]
      exact hagrees.create partition id name type access
  | delete partition id => exact hagrees.delete partition id
  | rename partition id name => exact hagrees.rename partition id name

end Agrees

/-! ## Reading back -/

/-- A value that was written, as a read function of its type hands it out. -/
def WriteValue.readBack : WriteValue → ReadCall → Option WriteValue
  | .bool value, .bool => some (.bool value)
  | .int32 value, .int32 => some (.int32 value)
  | .double bits, .double => some (.double bits)
  | .string value, .string bufferSize =>
      if bufferSize = 0 then none else some (.string (value.strncpy (min 31 (bufferSize - 1))))
  | .int64 value, .int64 => some (.int64 value)
  | .uint32 value, .uint32 => some (.uint32 value)
  | .float bits, .float => some (.float bits)
  | _, _ => none

/-- A number is read from the bytes it was written with. -/
theorem ofLe_word {n : Nat} (h : n < 2 ^ 32) {union : List UInt8} (hleads : le32 n <+: union) :
    ofLe (union.take 4) = n := by
  obtain ⟨rest, rfl⟩ := hleads
  exact ofLe_le32 h

theorem ofLe_doubleWord {n : Nat} (h : n < 2 ^ 64) {union : List UInt8}
    (hleads : le32 n ++ le32 (n / 2 ^ 32) <+: union) : ofLe (union.take 8) = n := by
  obtain ⟨rest, rfl⟩ := hleads
  have htake : (le32 n ++ le32 (n / 2 ^ 32) ++ rest).take 8 = le32 n ++ le32 (n / 2 ^ 32) := rfl
  rw [htake]
  simp only [le32, ofLe, UInt8.toNat_ofNat', List.cons_append, List.nil_append]
  omega

theorem ofBytes_terminated (s : CStr) : CStr.ofBytes (s.bytes ++ [0]) = s := by
  have harray : s.bytes ++ [0] = charArray (s.bytes.length + 1) s := by
    rw [charArray, List.take_of_length_le (Nat.le_succ _), Nat.add_sub_cancel_left]
    rfl
  rw [harray, CStr.ofBytes_charArray (Nat.lt_succ_self _)]

theorem takeWhile_append_of_stop {α : Type} {P : α → Bool} {l rest : List α} {a : α} (hmem : a ∈ l)
    (hstop : P a = false) : (l ++ rest).takeWhile P = l.takeWhile P := by
  induction l with
  | nil => cases hmem
  | cons b l ih =>
      rw [List.cons_append, List.takeWhile_cons, List.takeWhile_cons]
      split
      next hb =>
        have hne : a ≠ b := by
          rintro rfl
          rw [hstop] at hb
          cases hb
        rw [ih ((List.mem_cons.mp hmem).resolve_left hne)]
      next => rfl

/-- The member written is the member read. -/
theorem member_of_image {v : WriteValue} {call : ReadCall} {out : WriteValue}
    (hout : v.readBack call = some out) {image union : List UInt8}
    (himage : storedImage v.type v.bytes = some image) (hleads : image <+: union) :
    call ≠ .string 0 ∧ call.member union = out := by
  cases v with
  | bool value =>
      cases call with
      | bool =>
          obtain rfl := Option.some.inj hout
          obtain rfl : [if value then (1 : UInt8) else 0] = image := Option.some.inj himage
          obtain ⟨rest, rfl⟩ := hleads
          cases value with
          | false => exact ⟨by decide, rfl⟩
          | true => exact ⟨by decide, rfl⟩
      | _ => cases hout
  | int32 value =>
      cases call with
      | int32 =>
          obtain rfl := Option.some.inj hout
          obtain rfl : le32 value.toNat = image := Option.some.inj himage
          refine ⟨by decide, ?_⟩
          rw [ReadCall.member, ofLe_word value.toNat_lt hleads, UInt32.ofNat_toNat]
      | _ => cases hout
  | double bits =>
      cases call with
      | double =>
          obtain rfl := Option.some.inj hout
          obtain rfl : le32 bits.toNat ++ le32 (bits.toNat / 2 ^ 32) = image :=
            Option.some.inj himage
          refine ⟨by decide, ?_⟩
          rw [ReadCall.member, ofLe_doubleWord bits.toNat_lt hleads, UInt64.ofNat_toNat]
      | _ => cases hout
  | string value =>
      cases call with
      | string bufferSize =>
          rcases Nat.eq_zero_or_pos bufferSize with rfl | hpos
          · cases hout
          · rw [WriteValue.readBack, if_neg (Nat.ne_of_gt hpos)] at hout
            obtain rfl := Option.some.inj hout
            have himage : charArray 32 ((CStr.ofBytes (value.bytes ++ [0])).strncpy 31) = image :=
              Option.some.inj himage
            rw [ofBytes_terminated] at himage
            subst himage
            have hshort := CStr.length_strncpy_le value 31
            obtain ⟨rest, rfl⟩ := hleads
            have hzero : (0 : UInt8) ∈ charArray 32 (value.strncpy 31) := by
              refine List.mem_append_right _ ?_
              rw [List.mem_replicate]
              exact ⟨by omega, rfl⟩
            have hstring : CStr.ofBytes (charArray 32 (value.strncpy 31) ++ rest) =
                value.strncpy 31 := by
              refine Eq.trans (CStr.ext_bytes ?_) (CStr.ofBytes_charArray (Nat.lt_succ_of_le hshort))
              exact takeWhile_append_of_stop (P := fun b : UInt8 => decide (b ≠ 0)) hzero rfl
            refine ⟨fun heq => ?_, ?_⟩
            · rw [ReadCall.string.injEq] at heq
              omega
            · rw [ReadCall.member, hstring]
              refine congrArg WriteValue.string (CStr.ext_bytes ?_)
              simp only [CStr.strncpy, List.take_take, Nat.min_comm]
      | _ => cases hout
  | int64 value =>
      cases call with
      | int64 =>
          obtain rfl := Option.some.inj hout
          obtain rfl : le32 value.toNat ++ le32 (value.toNat / 2 ^ 32) = image :=
            Option.some.inj himage
          refine ⟨by decide, ?_⟩
          rw [ReadCall.member, ofLe_doubleWord value.toNat_lt hleads, UInt64.ofNat_toNat]
      | _ => cases hout
  | uint32 value =>
      cases call with
      | uint32 =>
          obtain rfl := Option.some.inj hout
          obtain rfl : le32 value.toNat = image := Option.some.inj himage
          refine ⟨by decide, ?_⟩
          rw [ReadCall.member, ofLe_word value.toNat_lt hleads, UInt32.ofNat_toNat]
      | _ => cases hout
  | float bits =>
      cases call with
      | float =>
          obtain rfl := Option.some.inj hout
          obtain rfl : le32 bits.toNat = image := Option.some.inj himage
          refine ⟨by decide, ?_⟩
          rw [ReadCall.member, ofLe_word bits.toNat_lt hleads, UInt32.ofNat_toNat]
      | _ => cases hout

/-- What the handle hands out of a registered point is what the store holds of it. -/
structure ReadsBack (h : IndurtdbH) (id : Nat) (c : Cell) : Prop where
  record : ∃ p, indurtdbHReadPoint h id = some p ∧ Shows p c
  value : ∀ v call out, storedImage v.type v.bytes = some c.image →
    WriteValue.readBack v call = some out → indurtdbHRead h id call = .ok out
  range : ∀ startId : UInt32, ∀ count outCap points,
    indurtdbHReadRange h startId count outCap = .ok points →
      points.length = min count outCap ∧
        ∀ k p, points[k]? = some p → startId.toNat + k = id → Shows p c

theorem readRangeLoop_points (h : IndurtdbH) (hbound : h.seg.hdr.maxPoints < 2 ^ 32)
    (startId : UInt32) (n : Nat) :
    ∀ (i : Nat) (points : List IndurtdbPoint), startId.toNat + i < 2 ^ 32 →
      readRangeLoop h startId n i = .ok points →
        points.length = n ∧ ∀ k p, points[k]? = some p →
          indurtdbHReadPoint h (startId.toNat + i + k) = some p := by
  induction n with
  | zero =>
      intro i points _ hread
      obtain rfl := Except.ok.inj hread
      exact ⟨rfl, fun k p hp => by cases hp⟩
  | succ n ih =>
      intro i points hlt hread
      unfold readRangeLoop at hread
      rw [show u32 (startId.toNat + i) = startId.toNat + i from Nat.mod_eq_of_lt hlt] at hread
      cases hpoint : indurtdbHReadPoint h (startId.toNat + i) with
      | none =>
          rw [hpoint] at hread
          cases hread
      | some p =>
          rw [hpoint] at hread
          have hid : pmValidateId h.seg (startId.toNat + i) := by
            unfold indurtdbHReadPoint at hpoint
            split at hpoint
            next hid => exact hid
            next => cases hpoint
          have hnext : startId.toNat + (i + 1) < 2 ^ 32 := by
            have hmax := hid.1
            omega
          cases hrest : readRangeLoop h startId n (i + 1) with
          | error rc =>
              simp only [hrest, Except.map] at hread
              cases hread
          | ok rest =>
              simp only [hrest, Except.map] at hread
              obtain rfl := Except.ok.inj hread
              obtain ⟨hlength, hall⟩ := ih (i + 1) rest hnext hrest
              refine ⟨by rw [List.length_cons, hlength], fun k q hq => ?_⟩
              cases k with
              | zero =>
                  obtain rfl := Option.some.inj hq
                  exact hpoint
              | succ k =>
                  have hthere := hall k q hq
                  rw [show startId.toNat + i + (k + 1) = startId.toNat + (i + 1) + k by omega]
                  exact hthere

/-- What agrees is read back. -/
theorem Agrees.shown {h : IndurtdbH} {store : Nat → Cell} (hagrees : Agrees h store) {id : Nat}
    (hid : pmValidateId h.seg id) (hnamed : (h.seg.points id).name ≠ CStr.empty) :
    ReadsBack h id (store id) := by
  have hshows := hagrees.shows id hid hnamed
  have hread : indurtdbHReadPoint h id = some (h.seg.points id) := if_pos hid
  refine ⟨⟨_, hread, hshows⟩, ?_, ?_⟩
  · intro v call out himage hout
    obtain ⟨hroom, hmember⟩ := member_of_image hout himage hshows.value
    rw [indurtdbHRead, if_neg hroom, hread]
    exact congrArg Except.ok hmember
  · intro startId count outCap points hrange
    unfold indurtdbHReadRange at hrange
    split at hrange
    next => cases hrange
    next =>
      obtain ⟨hlength, hall⟩ := readRangeLoop_points h hagrees.bound startId _ 0 points
        startId.toNat_lt hrange
      refine ⟨hlength, fun k p hp hk => ?_⟩
      have hthere := hall k p hp
      rw [Nat.add_zero, hk, hread] at hthere
      obtain rfl := Option.some.inj hthere
      exact hshows

/-- A run of calls keeps the agreement. -/
theorem Agrees.runCalls {calls : List ValueCall} :
    ∀ {h : IndurtdbH} {store : Nat → Cell}, Agrees h store →
      Agrees (Api.runCalls calls h store).1 (Api.runCalls calls h store).2 := by
  induction calls with
  | nil => exact fun h => h
  | cons call calls ih => exact fun h => ih (h.run call)

/-- **The store of values.**  Whatever is called on a handle, from any state of its segment
whose write lock is free, as opening a handle leaves it, a registered point is read back as
the abstract store has it: with the value written last, by itself or in a range, a string cut
to 31 bytes; with the quality and the time stamps of that write, and what was set and what
scans have made of the quality since; and zeroed by its creation. -/
theorem readsBack_of_calls (h : IndurtdbH) (hfree : h.seg.hdr.writeSeq % 2 = 0)
    (hbound : h.seg.hdr.maxPoints < 2 ^ 32) (calls : List ValueCall) (id : Nat)
    (hid : pmValidateId (runCalls calls h fun id => .ofPoint (h.seg.points id)).1.seg id)
    (hnamed : ((runCalls calls h fun id => .ofPoint (h.seg.points id)).1.seg.points id).name ≠
      CStr.empty) :
    ReadsBack (runCalls calls h fun id => .ofPoint (h.seg.points id)).1 id
      ((runCalls calls h fun id => .ofPoint (h.seg.points id)).2 id) := by
  have hstart : Agrees h fun id => .ofPoint (h.seg.points id) := by
    refine ⟨hfree, hbound, fun id _ _ => ⟨rfl, List.prefix_refl _, ?_⟩⟩
    rintro t ht
    obtain rfl := Option.some.inj ht
    exact ⟨rfl, rfl, rfl⟩
  exact hstart.runCalls.shown hid hnamed

/-- The string `abc`. -/
def abc : CStr := ⟨[97, 98, 99], by decide⟩

/-- A point is created and written, its neighbour is not registered, and a range of two
values is written over both. -/
def stringBesideRange : List ValueCall :=
  [.create 0 2 abc indurtdbTypeString indurtdbAccessReadWrite.toNat,
    .writeRange 2 [.int32 7, .int32 8] id,
    .write 2 (.string abc) 5 6,
    .checkTimeouts 100 10]

theorem readsBack_of_calls_abc :
    indurtdbHRead (runCalls stringBesideRange (freshHandle 4 1 1)
        fun id => .ofPoint ((freshHandle 4 1 1).seg.points id)).1 2 (.string 3) =
      .ok (.string (abc.strncpy 2)) := by
  have hread := readsBack_of_calls (freshHandle 4 1 1) (by decide +kernel) (by decide +kernel)
    stringBesideRange 2 (by decide +kernel) (by decide +kernel)
  exact hread.value (.string abc) (.string 3) _ (by decide +kernel) rfl

end InduRtdb.Api
