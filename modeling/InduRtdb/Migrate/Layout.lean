/-
  Migrate/Layout.lean --- the segment layout as the migration tool computes it.

  Source: `tools/irt_migrate/irt_migrate/layout.py`.

  The tool is written in Python: its integers do not wrap, so they are `Nat` here and the
  masks are written out; its `bytes` are `Bytes`.  What raises an exception in the source
  ends in `Raised`.
-/
import InduRtdb.Core.Shm
import InduRtdb.Lib.Crc

set_option autoImplicit false

namespace InduRtdb.Migrate

open InduRtdb.Core InduRtdb.Lib

/-- The exceptions, one for each statement that raises one. -/
inductive Raised where
  /-- `struct.error`: a field behind the end, or a number that does not fit its field -/
  | structError
  /-- `mmap`: the file is shorter than the mapping -/
  | mmapLength
  /-- v1 header too short -/
  | v1HeaderTooShort
  /-- bad magic -/
  | badMagic (magic : Nat)
  /-- source segment is not v1 -/
  | notV1 (version : Nat)
  /-- v1 header max_points == 0 -/
  | v1NoPoints
  /-- v2/v3 header too short -/
  | headerTooShort (length : Nat)
  /-- segment version does not match expected version -/
  | versionMismatch (version expected : Nat)
  /-- v2/v3 header max_points == 0 -/
  | noPoints
  /-- the head of the segment is too short to tell its version -/
  | headTooShort (length : Nat)
  /-- the v2 reader does not accept this version -/
  | notV2 (version : Nat)
  /-- an offset of the v2 source segment is 0: not sealed -/
  | notSealed
  /-- the v2 source segment is smaller than its layout -/
  | segmentTruncated (size total : Nat)
  /-- source segment version is not supported -/
  | versionUnsupported (version : Nat)
  /-- the length of the source points does not fit max_points -/
  | pointsLength (length maxPoints : Nat)
  /-- the length of the source metadata does not fit the layout -/
  | metaLength (length expected : Nat)
  /-- the target segment is not of the current version -/
  | notCurrent (version : Nat)
  /-- max_points differ -/
  | maxPointsDiffer (src dst : Nat)
  /-- max_subscribers differ -/
  | maxSubscribersDiffer
  /-- the v3 header CRC does not verify -/
  | crcMismatch (stored calculated : Nat)
  /-- migrated points outside partition 0 -/
  | partitionNotZero (ids : List Nat)
  /-- the metadata of the v2 source segment was not kept -/
  | metaNotPreserved
  /-- points or index entries that do not match -/
  | mismatches (points : List Nat) (index : List (Nat × Bytes × Option Nat))
  deriving DecidableEq, Repr

theorem ok_bind {α β : Type} (a : α) (f : α → Except Raised β) :
    (Except.ok a >>= f) = f a := rfl

/-! ## `struct` and `zlib` -/

/-- `struct.unpack_from("<I", raw, offset)`. -/
def unpackU32 (raw : Bytes) (offset : Nat) : Except Raised Nat :=
  if offset + 4 ≤ raw.length then .ok (readLe raw.mem offset 4) else .error .structError

/-- `struct.pack_into("<I...I", raw, offset, ...)`. -/
def packU32s (raw : Bytes) (offset : Nat) (values : List Nat) : Except Raised Bytes :=
  if (∀ v ∈ values, v < 2 ^ 32) ∧ offset + 4 * values.length ≤ raw.length then
    .ok (raw.store offset (offset + 4 * values.length) (values.flatMap le32))
  else .error .structError

/-- `zlib.crc32`. -/
def zlibCrc32 (data : Bytes) : Nat := (Crc.crc32 data).toNat

/-- `bytearray(n)`. -/
def zeros (n : Nat) : Bytes := List.replicate n 0

/-! ## Constants -/

abbrev magicNumber : Nat := 0x1DBA1DBA
abbrev shmVersionV1 : Nat := 1
abbrev shmVersionV2 : Nat := 2
abbrev shmVersionV3 : Nat := 3
abbrev shmVersionCurrent : Nat := shmVersionV3

abbrev headerV1Size : Nat := 64
abbrev headerV2Size : Nat := 128
abbrev pointSize : Nat := 128
abbrev subsEntrySize : Nat := 16
abbrev indexSlotSize : Nat := 8
abbrev metaSizePerPoint : Nat := 32

abbrev nameOffset : Nat := 45
abbrev nameLen : Nat := 64
abbrev sourceTsOffset : Nat := 112
abbrev partitionOffset : Nat := 120

abbrev indexEmpty : Nat := 0xFFFFFFFF
abbrev indexTombstone : Nat := 0xFFFFFFFE

/-! ## Sizes and offsets -/

/-- The loop of `layout_buckets`.  It has no bound of its own: `want` turns are more than
it takes. -/
def layoutBucketsLoop (want : Nat) : Nat → Nat → Nat
  | 0, cap => cap
  | fuel + 1, cap => if cap < want then layoutBucketsLoop want fuel (cap * 2) else cap

/-- `layout_buckets`. -/
def layoutBuckets (maxPoints : Nat) : Nat :=
  layoutBucketsLoop (maxPoints * 2) (maxPoints * 2) 8

/-- `layout_index_size`. -/
def layoutIndexSize (maxPoints : Nat) : Nat := layoutBuckets maxPoints * indexSlotSize

/-- `layout_meta_size`. -/
def layoutMetaSize (maxPoints : Nat) : Nat := maxPoints * metaSizePerPoint

/-- `off_points_v2`. -/
def offPointsV2 : Nat := headerV2Size

/-- `off_index_v2`. -/
def offIndexV2 (maxPoints : Nat) : Nat := offPointsV2 + maxPoints * pointSize

/-- `off_meta_v2`. -/
def offMetaV2 (maxPoints : Nat) : Nat := offIndexV2 maxPoints + layoutIndexSize maxPoints

/-- `off_subs_v2`. -/
def offSubsV2 (maxPoints : Nat) : Nat := offMetaV2 maxPoints + layoutMetaSize maxPoints

/-- `total_size_v2`. -/
def totalSizeV2 (maxPoints maxSubscribers : Nat) : Nat :=
  offSubsV2 maxPoints + maxSubscribers * subsEntrySize

/-- `total_size_v1`. -/
def totalSizeV1 (maxPoints maxSubscribers : Nat) : Nat :=
  headerV1Size + maxPoints * pointSize + maxSubscribers * subsEntrySize

/-- Up to `2 ^ 30` points the guard of the C loop does not show. -/
theorem layoutBuckets_eq {maxPoints : Nat} (h : maxPoints ≤ 2 ^ 30) :
    layoutBuckets maxPoints = irtLayoutBuckets maxPoints := by
  have hloop : ∀ fuel' k fuel, 31 ≤ fuel' + k → k ≤ 31 → maxPoints * 2 ≤ fuel + 2 ^ k →
      layoutBucketsLoop (maxPoints * 2) fuel (2 ^ k) =
        bucketsLoop (maxPoints * 2) fuel' (2 ^ k) := by
    intro fuel'
    induction fuel' with
    | zero =>
        intro k fuel hk hk' _
        have hfull : k = 31 := by omega
        have hdone : ¬ 2 ^ 31 < maxPoints * 2 := by omega
        rw [hfull]
        cases fuel with
        | zero => rfl
        | succ fuel => rw [layoutBucketsLoop, if_neg hdone, bucketsLoop]
    | succ fuel' ih =>
        intro k fuel hk hk' hfuel
        rw [bucketsLoop]
        rcases Nat.lt_or_ge (2 ^ k) (maxPoints * 2) with hlt | hge
        · have hsmall : k ≤ 30 := by
            by_contra hbig
            have hfull : k = 31 := by omega
            rw [hfull] at hlt
            omega
          have hguard : 2 ^ k ≤ 2 ^ 30 := Nat.pow_le_pow_right (by omega) hsmall
          cases fuel with
          | zero => omega
          | succ fuel =>
              rw [layoutBucketsLoop, if_pos hlt, if_pos ⟨hlt, hguard⟩, ← pow_succ]
              apply ih (k + 1) fuel (by omega) (by omega)
              have hgrow : 2 ^ k + 1 ≤ 2 ^ (k + 1) := Nat.pow_lt_pow_right (by omega) (by omega)
              omega
        · have hnot : ¬ (2 ^ k < maxPoints * 2 ∧ 2 ^ k ≤ 2 ^ 30) := by omega
          rw [if_neg hnot]
          cases fuel with
          | zero => rfl
          | succ fuel => rw [layoutBucketsLoop, if_neg (by omega)]
  exact hloop 28 3 (maxPoints * 2) (by omega) (by omega) (by omega)

/-! ## Names and partitions -/

/-- `read_point_name`. -/
def readPointName (points : Bytes) (pointId : Nat) : Bytes :=
  let base := pointId * pointSize + nameOffset
  (points.slice base (base + nameLen)).takeWhile (· ≠ 0)

/-- `read_point_partition`. -/
def readPointPartition (points : Bytes) (pointId : Nat) : Except Raised Nat :=
  unpackU32 points (pointId * pointSize + partitionOffset)

/-- `name_eq`. -/
def nameEq (points : Bytes) (pointId : Nat) (name : Bytes) (partition : Nat) :
    Except Raised Bool := do
  let stored ← readPointPartition points pointId
  if stored ≠ partition then pure false
  else pure (readPointName points pointId == name)

/-! ## The key hash -/

/-- `(h * 0x01000193) & 0xFFFFFFFF`. -/
def fnvMul (h : Nat) : Nat := (h * 0x01000193) &&& 0xFFFFFFFF

/-- The loop of `compose_hash` over the name: it ends at a NUL. -/
def hashName : Nat → Bytes → Nat
  | h, [] => h
  | h, b :: rest => if b = 0 then h else hashName (fnvMul (h ^^^ b.toNat)) rest

/-- `compose_hash`. -/
def composeHash (partition : Nat) (name : Bytes) : Nat :=
  let h := (List.range 4).foldl (fun h i => fnvMul (h ^^^ ((partition >>> (8 * i)) &&& 0xFF)))
    0x811C9DC5
  let h := hashName h name
  let h := fnvMul (h ^^^ (h >>> 16))
  fnvMul (h ^^^ (h >>> 13))

/-! ## The index -/

/-- A slot: `struct.unpack_from("<II", slots, i * INDEX_SLOT_SIZE)`. -/
def unpackSlot (slots : Bytes) (i : Nat) : Except Raised (Nat × Nat) := do
  let hash ← unpackU32 slots (i * indexSlotSize)
  let pointId ← unpackU32 slots (i * indexSlotSize + 4)
  pure (hash, pointId)

/-- A slot: `struct.pack_into("<II", slots, i * INDEX_SLOT_SIZE, ...)`. -/
def packSlot (slots : Bytes) (i hash pointId : Nat) : Except Raised Bytes :=
  packU32s slots (i * indexSlotSize) [hash, pointId]

/-- `sh == h and name_eq(points, spid, name, part)`. -/
def slotMatches (points : Bytes) (sh spid h : Nat) (name : Bytes) (partition : Nat) :
    Except Raised Bool :=
  if sh = h then nameEq points spid name partition else .ok false

/-- The variables of the probe loop of `build_index`. -/
structure Placing where
  slots : Bytes
  tomb : Nat
  placed : Bool
  updated : Bool

/-- The probe loop of `build_index`, for the point `pid` of hash `h`. -/
def placeLoop (points : Bytes) (capacity h pid : Nat) (name : Bytes) (partition : Nat) :
    Nat → Nat → Placing → Except Raised Placing
  | 0, _, v => .ok v
  | n + 1, d, v => do
      let mask := capacity - 1
      let i := ((h &&& mask) + d) &&& mask
      let (sh, spid) ← unpackSlot v.slots i
      if spid = indexEmpty then
        let slots ← packSlot v.slots (if v.tomb ≠ capacity then v.tomb else i) h pid
        pure { v with slots := slots, placed := true }
      else if spid = indexTombstone then
        placeLoop points capacity h pid name partition n (d + 1)
          (if v.tomb = capacity then { v with tomb := i } else v)
      else if ← slotMatches points sh spid h name partition then
        let slots ← packSlot v.slots i h pid
        pure { v with slots := slots, updated := true, placed := true }
      else placeLoop points capacity h pid name partition n (d + 1) v

/-- What `build_index` does behind the probe loop: the slots, and whether to count. -/
def settle (capacity h pid : Nat) (v : Placing) : Except Raised (Bytes × Bool) := do
  if v.placed = false ∧ v.tomb ≠ capacity then
    let slots ← packSlot v.slots v.tomb h pid
    pure (slots, !v.updated)
  else pure (v.slots, v.placed && !v.updated)

/-- One point of `build_index`. -/
def indexPoint (points : Bytes) (capacity : Nat) (built : Bytes × Nat) (pid : Nat) :
    Except Raised (Bytes × Nat) :=
  let name := readPointName points pid
  if name.isEmpty then .ok built
  else do
    let partition ← readPointPartition points pid
    let h := composeHash partition name
    let v ← placeLoop points capacity h pid name partition capacity 0
      ⟨built.1, capacity, false, false⟩
    let (slots, counted) ← settle capacity h pid v
    pure (slots, if counted then built.2 + 1 else built.2)

/-- `build_index`. -/
def buildIndex (points : Bytes) (maxPoints capacity : Nat) : Except Raised (Bytes × Nat) := do
  let slots ← (List.range capacity).foldlM (fun slots i => packSlot slots i 0 indexEmpty)
    (zeros (capacity * indexSlotSize))
  (List.range maxPoints).foldlM (indexPoint points capacity) (slots, 0)

/-- The loop of `index_probe`. -/
def indexProbeLoop (slots : Bytes) (capacity : Nat) (points : Bytes) (h : Nat) (name : Bytes)
    (partition : Nat) : Nat → Nat → Except Raised (Option Nat)
  | 0, _ => .ok none
  | n + 1, d => do
      let mask := capacity - 1
      let (sh, spid) ← unpackSlot slots (((h &&& mask) + d) &&& mask)
      if spid = indexEmpty then pure none
      else if spid = indexTombstone then
        indexProbeLoop slots capacity points h name partition n (d + 1)
      else if ← slotMatches points sh spid h name partition then pure (some spid)
      else indexProbeLoop slots capacity points h name partition n (d + 1)

/-- `index_probe`. -/
def indexProbe (slots : Bytes) (capacity : Nat) (points name : Bytes) (partition : Nat) :
    Except Raised (Option Nat) :=
  indexProbeLoop slots capacity points (composeHash partition name) name partition capacity 0

end InduRtdb.Migrate
