/-
  Core/Index.lean --- the name index of the segment.

  Source: `src/core/irt_index.c`.

  The index maps `(partition, name)` to a point id by open addressing.  A slot
  holds the hash of the key and the id; the key itself is read from the point
  table, so what a slot means changes with the point it names.  Every function
  takes the opener's view `IrtShm`, because the number of buckets is computed
  from the capacity the opener asked for.
-/
import InduRtdb.Core.Store
import InduRtdb.Lib.Probe

set_option autoImplicit false

namespace InduRtdb.Core

/-! ## The key hash -/

/-- The FNV-1a prime. -/
abbrev fnvPrime : UInt32 := 0x01000193

/-- One FNV-1a step. -/
def fnvStep (h : UInt32) (byte : UInt8) : UInt32 := (h ^^^ byte.toUInt32) * fnvPrime

/-- Byte `i` of a partition number, least significant first. -/
def partitionByte (partition : UInt32) (i : Nat) : UInt8 :=
  ((partition >>> UInt32.ofNat (8 * i)) &&& 0xFF).toUInt8

/-- `irt_index_compose_hash`: FNV-1a over the four partition bytes and the name,
followed by the two mixing steps. -/
def irtIndexComposeHash (partition : UInt32) (name : CStr) : UInt32 :=
  let h := ((List.range 4).map (partitionByte partition)).foldl fnvStep 0x811C9DC5
  let h := name.bytes.foldl fnvStep h
  let h := (h ^^^ (h >>> 16)) * fnvPrime
  (h ^^^ (h >>> 13)) * fnvPrime

/-! ## The view of the index region -/

/-- `irt_index_t`, without the pointer to the slots. -/
structure IrtIndex where
  capacity : Nat
  mask : Nat

/-- `irt_index_bind`: refused when the header names no index region. -/
def irtIndexBind (s : IrtShm) (hdr : IrtHeader) : Option IrtIndex :=
  if hdr.offIndex = 0 then none
  else some ⟨irtLayoutBuckets s.maxPoints, irtLayoutBuckets s.maxPoints - 1⟩

/-- `irt_index_clear`: every slot is filled with `0xFF`. -/
def irtIndexClear (s : IrtShm) (seg : Segment) : Segment :=
  match irtIndexBind s seg.hdr with
  | none => seg
  | some ix =>
      { seg with
        hdr := { seg.hdr with indexCount := 0 }
        slots := fun i => if i < ix.capacity then ⟨0xFFFFFFFF, irtIndexEmpty⟩ else seg.slots i }

/-- `(home + d) & mask`, with `home` the masked hash. -/
def IrtIndex.slotIndex (ix : IrtIndex) (hash : UInt32) (d : Nat) : Nat :=
  ((hash.toNat &&& ix.mask) + d) &&& ix.mask

/-- `irt_index_slot_matches`: equal hashes, and the point the slot names carries
the partition and the name asked for. -/
def irtIndexSlotMatches (points : Nat → IndurtdbPoint) (hash partition : UInt32)
    (name : CStr) (slot : IrtIndexSlot) : Bool :=
  slot.hash == hash
    && slot.pointId != irtIndexEmpty && slot.pointId != irtIndexTombstone
    && (points slot.pointId).partition == partition
    && (points slot.pointId).name.strncmpEq name nameMax

/-! ## Lookup, insert and remove -/

/-- The probe loop shared by lookup and removal: the first slot that matches,
given up at the first empty slot or after every bucket. -/
def irtIndexProbeLoop (ix : IrtIndex) (seg : Segment) (hash partition : UInt32)
    (name : CStr) : Nat → Nat → Option Nat
  | 0, _ => none
  | n + 1, d =>
      let i := ix.slotIndex hash d
      if (seg.slots i).pointId = irtIndexEmpty then none
      else if (seg.slots i).pointId = irtIndexTombstone then
        irtIndexProbeLoop ix seg hash partition name n (d + 1)
      else if irtIndexSlotMatches seg.points hash partition name (seg.slots i) then some i
      else irtIndexProbeLoop ix seg hash partition name n (d + 1)

/-- `irt_index_probe`: the id in the first matching slot. -/
def irtIndexProbe (ix : IrtIndex) (seg : Segment) (partition : UInt32) (name : CStr) :
    Except Rc Nat :=
  match irtIndexProbeLoop ix seg (irtIndexComposeHash partition name) partition name
      ix.capacity 0 with
  | some i => .ok (seg.slots i).pointId
  | none => .error .errNotFound

/-- The probe loop of `irt_index_insert_locked`, with the first tombstone met so
far.  An empty slot ends the search; the tombstone, if any, is used in its
place. -/
def irtIndexInsertLoop (ix : IrtIndex) (seg : Segment) (hash partition : UInt32)
    (name : CStr) : Nat → Nat → Option Nat → Probe.Place
  | 0, _, none => .full
  | 0, _, some t => .free t
  | n + 1, d, tomb =>
      let i := ix.slotIndex hash d
      if (seg.slots i).pointId = irtIndexEmpty then .free (tomb.getD i)
      else if (seg.slots i).pointId = irtIndexTombstone then
        irtIndexInsertLoop ix seg hash partition name n (d + 1) (tomb.or (some i))
      else if irtIndexSlotMatches seg.points hash partition name (seg.slots i) then .hit i
      else irtIndexInsertLoop ix seg hash partition name n (d + 1) tomb

/-- `irt_index_insert_locked`.  The partition of the point is stored before the
search, so it is stored even when no slot is free. -/
def irtIndexInsertLocked (s : IrtShm) (seg : Segment) (partition : UInt32) (name : CStr)
    (pointId : Nat) : Rc × Segment :=
  if name.isEmpty then (.errArg, seg)
  else match irtIndexBind s seg.hdr with
  | none => (.errArg, seg)
  | some ix =>
      if seg.hdr.offPoints = 0 ∨ s.maxPoints ≤ pointId then (.errArg, seg)
      else
        let seg := seg.setPoint pointId { seg.points pointId with partition := partition }
        let hash := irtIndexComposeHash partition name
        match irtIndexInsertLoop ix seg hash partition name ix.capacity 0 none with
        | .hit i => (.ok, seg.setSlot i { seg.slots i with pointId := pointId })
        | .free i =>
            (.ok, (seg.setSlot i ⟨hash, pointId⟩).setIndexCount (u32 (seg.hdr.indexCount + 1)))
        | .full => (.errFull, seg)

/-- `irt_index_remove_locked`: the first matching slot becomes a tombstone. -/
def irtIndexRemoveLocked (s : IrtShm) (seg : Segment) (partition : UInt32) (name : CStr) :
    Rc × Segment :=
  if name.isEmpty then (.errArg, seg)
  else match irtIndexBind s seg.hdr with
  | none => (.errArg, seg)
  | some ix =>
      if seg.hdr.offPoints = 0 then (.errArg, seg)
      else
        match irtIndexProbeLoop ix seg (irtIndexComposeHash partition name) partition name
            ix.capacity 0 with
        | none => (.errNotFound, seg)
        | some i =>
            (.ok, (seg.setSlot i { seg.slots i with pointId := irtIndexTombstone }).setIndexCount
              (seg.hdr.indexCount - 1))

/-- `irt_index_insert`. -/
def irtIndexInsert (s : IrtShm) (seg : Segment) (partition : UInt32) (name : CStr)
    (pointId : Nat) : Rc × Segment :=
  withWriteLock seg fun seg => irtIndexInsertLocked s seg partition name pointId

/-- `irt_index_remove`. -/
def irtIndexRemove (s : IrtShm) (seg : Segment) (partition : UInt32) (name : CStr) :
    Rc × Segment :=
  withWriteLock seg fun seg => irtIndexRemoveLocked s seg partition name

/-- The attempts of `irt_index_lookup`: an odd word costs one attempt, an even
word is still the same after the probe, because nobody else runs. -/
def irtIndexLookupAttempts (ix : IrtIndex) (seg : Segment) (partition : UInt32)
    (name : CStr) : Nat → Except Rc Nat
  | 0 => .error .errBusy
  | n + 1 =>
      if seg.hdr.writeSeq % 2 = 1 then irtIndexLookupAttempts ix seg partition name n
      else irtIndexProbe ix seg partition name

/-- `IRT_INDEX_MAX_RETRY`. -/
abbrev irtIndexMaxRetry : Nat := 16

/-- `irt_index_lookup`. -/
def irtIndexLookup (s : IrtShm) (seg : Segment) (partition : UInt32) (name : CStr) :
    Except Rc Nat :=
  if name.isEmpty then .error .errArg
  else match irtIndexBind s seg.hdr with
  | none => .error .errArg
  | some ix =>
      if seg.hdr.offPoints = 0 then .error .errArg
      else irtIndexLookupAttempts ix seg partition name irtIndexMaxRetry

end InduRtdb.Core
